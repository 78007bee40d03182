import OperationHooks.Proofs.Disk.Settle
import OperationHooks.Proofs.Output
import OperationHooks.Proofs.Run.Generator

set_option autoImplicit false

namespace OperationHooks.Run
open Effect Disk

variable {files directories : List Path} {directory p : Path} {w w' : World}

theorem run_onDisk {α : Type} (work : DiskWork α) (w : World) : run (Work.onDisk work) w =
    ((run work w.disk).1,{ w with disk := (run work w.disk).2 }) := by
  simp only [Work.onDisk,run_bind,run_get,run_set,run_lift]
  rfl

theorem onDisk_about_ok {α : Type} {path : Path} {action : Disk.Action α} {a : α}
    (h : run (Work.onDisk (.about path action)) w = (.ok a,w')) :
    run action w.disk = (.ok a,w'.disk) := by
  rw [run_onDisk,run_about] at h
  cases hr : run action w.disk with
  | mk r d =>
    rw [hr] at h
    cases r with
    | error fault => cases (Prod.mk.inj h).1
    | ok b => obtain ⟨hb,rfl⟩ := Prod.mk.inj h; obtain rfl := Except.ok.inj hb; rfl

theorem onDisk_about_error {α : Type} {path : Path} {action : Disk.Action α} {fault : Fault}
    (h : run (Work.onDisk (.about path action)) w = (.error fault,w')) :
    ∃ cause, fault = Fault.ofAccess path cause := by
  rw [run_onDisk,run_about] at h
  cases hr : run action w.disk with
  | mk r d =>
    rw [hr] at h
    cases r with
    | error cause => exact ⟨cause,(Except.error.inj (Prod.mk.inj h).1).symm⟩
    | ok b => cases (Prod.mk.inj h).1

theorem settled_eq_ok {d : Disk} {place : Place} (h : settled d p = .ok place) :
    d.settle p = some place := by
  unfold settled at h
  split at h
  · cases h
  · split at h
    · rename_i hs; obtain rfl := Except.ok.inj h; exact hs
    · cases h

theorem place_of_settled {d : Disk} {place : Place} {found : Found} (h : settled d p = .ok place)
    (hw : d.walk true p = .ok found) : place = found.place :=
  settled_of_walkFrom _ _ _ _ (walk_eq_ok.1 hw).2 (settled_eq_ok h)

theorem not_below_of_holdsAny {d : Disk} {place : Place} (h : holdsAny d place files = .ok false)
    (hp : p ∈ files) : ∃ a, settled d p = .ok a ∧ Tree.isBelow place a = false := by
  induction files with
  | nil => cases hp
  | cons file rest ih =>
    rw [holdsAny] at h
    cases hs : settled d file with
    | error e => rw [hs] at h; cases h
    | ok a =>
      simp only [hs,bind,Except.bind] at h
      cases hb : Tree.isBelow place a with
      | true => rw [hb] at h; cases h
      | false =>
        rw [hb] at h
        rcases List.mem_cons.1 hp with rfl | hp
        · exact ⟨a,hs,hb⟩
        · exact ih h hp

theorem settled_ne_config {d : Disk} {cause : ConfigFault} :
    settled d p ≠ .error (.config cause) := by
  unfold settled; split
  · simp
  · split <;> simp

theorem holdsAny_ne_config {d : Disk} {place : Place} {cause : ConfigFault} :
    holdsAny d place files ≠ .error (.config cause) := by
  induction files with
  | nil => simp [holdsAny]
  | cons file rest ih =>
    rw [holdsAny]
    cases hs : settled d file with
    | error e =>
      intro h
      obtain rfl := Except.error.inj h
      exact settled_ne_config hs
    | ok a =>
      simp only [bind,Except.bind]
      split
      · simp [pure,Except.pure]
      · exact ih

theorem ofAccess_ne_config {cause : Disk.PathFault} {fault : ConfigFault} :
    Fault.ofAccess p cause ≠ .config fault := by cases cause <;> simp [Fault.ofAccess]

def IsRefused (files : List Path) (d : Disk) (directory : Path) : Prop :=
  ∃ place, settled d directory = .ok place ∧ holdsAny d place files = .ok true

theorem run_cleanDirectory (files : List Path) (directory : Path) (w : World) :
    run (cleanDirectory files directory) w =
      match settled w.disk directory with
      | .error fault => (.error fault,w)
      | .ok place =>
        match holdsAny w.disk place files with
        | .error fault => (.error fault,w)
        | .ok true => (.error (.config (.holdsDefinitions directory)),w)
        | .ok false =>
          match w.disk.isPresent directory with
          | .error cause => (.error (.ofAccess directory cause),w)
          | .ok false => run (Work.onDisk (.about directory (makeDirectories directory))) w
          | .ok true =>
            run (do
              Work.onDisk (.about directory (removeTree directory))
              Work.onDisk (.about directory (makeDirectories directory)))
              (w.note .debug s!"Removing stale output {directory}") := by
  unfold cleanDirectory
  simp only [run_bind,run_get,run_lift]
  cases settled w.disk directory with
  | error fault => rfl
  | ok place =>
    cases hh : holdsAny w.disk place files with
    | error fault => simp only [hh]
    | ok holds =>
      simp only [hh]
      cases holds with
      | true => rfl
      | false =>
        simp only [Bool.false_eq_true,if_false,run_bind,run_lift]
        cases w.disk.isPresent directory with
        | error cause => rfl
        | ok there =>
          cases there with
          | false => rfl
          | true => simp only [mapError_ok,if_true,run_bind,Work.note,run_modify]

theorem cleanDirectory_ok (h : run (cleanDirectory files directory) w = (.ok (),w')) :
    ∃ place, settled w.disk directory = .ok place ∧ holdsAny w.disk place files = .ok false ∧
      (w.disk.isPresent directory = .ok false ∧
          run (makeDirectories directory) w.disk = (.ok (),w'.disk) ∨
        w.disk.isPresent directory = .ok true ∧
          ∃ d, run (removeTree directory) w.disk = (.ok (),d) ∧
          run (makeDirectories directory) d = (.ok (),w'.disk)) := by
  rw [run_cleanDirectory] at h
  split at h
  · cases h
  · rename_i place hs
    refine ⟨place,hs,?_⟩
    split at h
    · cases h
    · cases h
    · rename_i hh
      refine ⟨hh,?_⟩
      split at h
      · cases h
      · rename_i hp; exact .inl ⟨hp,onDisk_about_ok h⟩
      · rename_i hp
        obtain ⟨_,w₁,hr,hm⟩ := bind_eq_ok.1 h
        exact .inr ⟨hp,w₁.disk,(onDisk_about_ok hr :),onDisk_about_ok hm⟩

theorem cleanDirectory_refused {other : Path}
    (h : run (cleanDirectory files directory) w = (.error (.config (.holdsDefinitions other)),w')) :
    other = directory ∧ w' = w ∧ IsRefused files w.disk directory := by
  rw [run_cleanDirectory] at h
  split at h
  · rename_i hs
    obtain ⟨hf,-⟩ := Prod.mk.inj h
    rw [Except.error.inj hf] at hs
    exact absurd hs settled_ne_config
  · rename_i place hs
    split at h
    · rename_i hh
      obtain ⟨hf,-⟩ := Prod.mk.inj h
      rw [Except.error.inj hf] at hh
      exact absurd hh holdsAny_ne_config
    · rename_i hh
      obtain ⟨hf,rfl⟩ := Prod.mk.inj h
      obtain rfl := ConfigFault.holdsDefinitions.inj (Fault.config.inj (Except.error.inj hf))
      exact ⟨rfl,rfl,place,hs,hh⟩
    · split at h
      · obtain ⟨hf,-⟩ := Prod.mk.inj h
        exact absurd (Except.error.inj hf) ofAccess_ne_config
      · obtain ⟨cause,hc⟩ := onDisk_about_error h
        exact absurd hc.symm ofAccess_ne_config
      · rcases bind_eq_error.1 h with h | ⟨_,_,-,h⟩ <;>
          obtain ⟨cause,hc⟩ := onDisk_about_error h <;>
          exact absurd hc.symm ofAccess_ne_config

theorem isPresent_of_walk {d : Disk} {c : Place} {e : Disk.Entry}
    (h : d.walk true p = .ok (.entry c e)) : d.isPresent p = .ok true := by
  simp [isPresent, entry?,h,Except.map]

theorem walk_true_of_directory {d : Disk} {c : Place}
    (h : d.walk false p = .ok (.entry c .directory)) :
    d.walk true p = .ok (.entry c .directory) := by
  obtain ⟨ha,hw⟩ := walk_eq_ok.1 h
  exact walk_eq_ok.2 ⟨ha,walkFrom_true (by simp) _ _ _ hw⟩

/-- A directory that was there is emptied, if no definition lies below it; else directories are
made. -/
theorem cleanDirectory_effect (hdot : directory.Dotless)
    (h : run (cleanDirectory files directory) w = (.ok (),w')) :
    (w.disk.isPresent directory = .ok false ∧ Changed Tree.Grown w.disk w'.disk) ∨
      ∃ c, w.disk.walk false directory = .ok (.entry c .directory) ∧
        w.disk.tree.get? c = some .directory ∧ Changed (Cleared c) w.disk w'.disk ∧
        ∀ q ∈ files, ∃ a, settled w.disk q = .ok a ∧ Tree.isBelow c a = false := by
  obtain ⟨place,hs,hh,⟨hp,hm⟩ | ⟨hp,d,hr,hm⟩⟩ := cleanDirectory_ok h
  · have hgrown := grown_makeDirectories directory w.disk
    rw [hm] at hgrown
    exact .inl ⟨hp,hgrown⟩
  · obtain ⟨c,hw,hget,hcleared⟩ := cleared_of_remake hdot hr hm
    obtain rfl : place = c := place_of_settled hs (walk_true_of_directory hw)
    exact .inr ⟨place,hw,hget,hcleared,fun q hq => not_below_of_holdsAny hh hq⟩

theorem clean_nil (files : List Path) : clean files [] = pure () := rfl

theorem clean_cons (files : List Path) (directory : Path) (rest : List Path) :
    clean files (directory :: rest) = cleanDirectory files directory >>= fun _ =>
      clean files rest := rfl

theorem clean_cons_ok {rest : List Path} :
    run (clean files (directory :: rest)) w = (.ok (),w') ↔
      ∃ w₁, run (cleanDirectory files directory) w = (.ok (),w₁) ∧
        run (clean files rest) w₁ = (.ok (),w') := by
  rw [clean_cons,bind_eq_ok]
  exact ⟨fun ⟨_,w₁,h⟩ => ⟨w₁,h⟩,fun ⟨w₁,h⟩ => ⟨(),w₁,h⟩⟩

/-- A refusal comes when all directories before the refused one have been made anew. -/
theorem clean_refused
    (h : run (clean files directories) w = (.error (.config (.holdsDefinitions directory)),w')) :
    ∃ before after, directories = before ++ directory :: after ∧
      run (clean files before) w = (.ok (),w') ∧ IsRefused files w'.disk directory := by
  induction directories generalizing w with
  | nil => rw [clean_nil] at h; simp at h
  | cons first rest ih =>
    rw [clean_cons] at h
    rcases bind_eq_error.1 h with h | ⟨_,w₁,hfirst,h⟩
    · obtain ⟨rfl,rfl,hr⟩ := cleanDirectory_refused h
      exact ⟨[],rest,rfl,by simp [clean_nil],hr⟩
    · obtain ⟨before,after,rfl,hb,hr⟩ := ih h
      exact ⟨first :: before,after,rfl,clean_cons_ok.2 ⟨w₁,hfirst,hb⟩,hr⟩

end OperationHooks.Run
