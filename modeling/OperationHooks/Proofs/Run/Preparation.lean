import Mathlib.Data.List.Pairwise
import OperationHooks.Proofs.Disk.FileTree
import OperationHooks.Proofs.Run.Cleaning
import OperationHooks.Proofs.Run.Progress
/-!
What a run finds once its output directories have been made anew, on a disk without links: the
directories are all there, no definition is below one of them, and nothing but directories has come.
-/
set_option autoImplicit false

namespace OperationHooks.Run
open Effect Disk

def InOrder (d : Disk) (directories : List Path) : Prop :=
  directories.Pairwise fun first second => ¬ placeOf d second <+: placeOf d first

section Clean

variable {files directories : List Path} {directory p : Path} {w w' : World}

theorem settled_linkFree {d : Disk} {place : Place} (hl : LinkFree d.tree)
    (h : settled d p = .ok place) :
    place = placeOf d p := by
  have hs := settled_eq_ok h
  rw [settle_linkFree hl] at hs
  exact (Option.some.inj hs).symm

/-- What making one output directory anew does to the disk. -/
structure Remade (files : List Path) (directory : Path) (d d' : Disk) : Prop where
  effect : d.isPresent directory = .ok false ∧ Changed Tree.Grown d d' ∨
    Changed (Cleared (placeOf d directory)) d d'
  there : HasDirectory d' directory
  apart : ∀ p ∈ files, Tree.isBelow (placeOf d directory) (placeOf d p) = false

theorem Remade.here {d d' : Disk} (h : Remade files directory d d') : d'.here = d.here :=
  h.effect.elim (fun h => h.2.1) (fun h => h.1)

theorem Remade.swept {d d' : Disk} (h : Remade files directory d d') : Swept d.tree d'.tree :=
  h.effect.elim (fun h => swept_of_grown h.2.2) (fun h => swept_of_cleared h.2)

theorem remade_of_cleanDirectory (hl : LinkFree w.disk.tree) (hdot : directory.Dotless)
    (h : run (cleanDirectory files directory) w = (.ok (),w')) :
    Remade files directory w.disk w'.disk := by
  have heffect : w.disk.isPresent directory = .ok false ∧ Changed Tree.Grown w.disk w'.disk ∨
      Changed (Cleared (placeOf w.disk directory)) w.disk w'.disk := by
    rcases cleanDirectory_effect hdot h with hgrown | ⟨c,hw,-,hcleared,-⟩
    · exact .inl hgrown
    · obtain rfl : c = placeOf w.disk directory := place_of_walk hl hw
      exact .inr hcleared
  have hl' : LinkFree w'.disk.tree :=
    heffect.elim (fun h => (swept_of_grown h.2.2).linkFree hl)
      (fun h => (swept_of_cleared h.2).linkFree hl)
  obtain ⟨place,hs,hh,hm⟩ := cleanDirectory_ok h
  refine ⟨heffect,(hasDirectory_iff hl').2 ?_,fun p hp => ?_⟩
  · rcases hm with ⟨-,hm⟩ | ⟨-,_,-,hm⟩ <;> exact isDirectory_of_makeDirectories hm
  · obtain ⟨a,ha,hb⟩ := not_below_of_holdsAny hh hp
    rwa [settled_linkFree hl hs,settled_linkFree hl ha] at hb

/-- A directory that was made anew stays when a later one is. -/
theorem Remade.keeps {d d' : Disk} (h : Remade files directory d d')
    (hl : LinkFree d.tree) {other : Path}
    (hup : other.Upright) (hdot : other.Dotless) (hne : ¬ placeOf d directory <+: placeOf d other)
    (ho : HasDirectory d other) : HasDirectory d' other := by
  rcases h.effect with ⟨-,hgrown⟩ | hcleared
  · exact hasDirectory_grown hl hgrown ho
  · exact hasDirectory_cleared hl hcleared hup hdot hne ho

theorem swept_of_clean (hl : LinkFree w.disk.tree) (hdots : ∀ q ∈ directories, q.Dotless)
    (h : run (clean files directories) w = (.ok (),w')) :
    w'.disk.here = w.disk.here ∧ Swept w.disk.tree w'.disk.tree := by
  induction directories generalizing w with
  | nil =>
    rw [clean_nil] at h
    obtain ⟨-,rfl⟩ := Prod.mk.inj h
    exact ⟨rfl,.refl _⟩
  | cons first rest ih =>
    obtain ⟨w₁,hfirst,hrest⟩ := clean_cons_ok.1 h
    obtain ⟨hd,hdrest⟩ := List.forall_mem_cons.1 hdots
    have hr := remade_of_cleanDirectory hl hd hfirst
    obtain ⟨hhere,hswept⟩ := ih (hr.swept.linkFree hl) hdrest hrest
    exact ⟨hhere.trans hr.here,hr.swept.trans hswept⟩

theorem apart_of_clean (hl : LinkFree w.disk.tree) (hdots : ∀ q ∈ directories, q.Dotless)
    (h : run (clean files directories) w = (.ok (),w')) : ∀ directory ∈ directories, ∀ p ∈ files,
      Tree.isBelow (placeOf w.disk directory) (placeOf w.disk p) = false := by
  induction directories generalizing w with
  | nil => simp
  | cons first rest ih =>
    obtain ⟨w₁,hfirst,hrest⟩ := clean_cons_ok.1 h
    obtain ⟨hd,hdrest⟩ := List.forall_mem_cons.1 hdots
    have hr := remade_of_cleanDirectory hl hd hfirst
    refine List.forall_mem_cons.2 ⟨hr.apart,fun q hq p hp => ?_⟩
    have ha := ih (hr.swept.linkFree hl) hdrest hrest q hq p hp
    rwa [placeOf_eq hr.here,placeOf_eq hr.here] at ha

structure Cleaned (files directories : List Path) (d d' : Disk) : Prop where
  there : ∀ directory ∈ directories, HasDirectory d' directory
  apart : ∀ directory ∈ directories, ∀ p ∈ files,
    Tree.isBelow (placeOf d directory) (placeOf d p) = false

theorem hasDirectory_of_clean (hl : LinkFree w.disk.tree) (hdots : ∀ q ∈ directories, q.Dotless)
    {other : Path} (hup : other.Upright) (hdot : other.Dotless)
    (hne : ∀ q ∈ directories, ¬ placeOf w.disk q <+: placeOf w.disk other)
    (h : run (clean files directories) w = (.ok (),w')) (ho : HasDirectory w.disk other) :
    HasDirectory w'.disk other := by
  induction directories generalizing w with
  | nil =>
    rw [clean_nil] at h
    obtain ⟨-,rfl⟩ := Prod.mk.inj h
    exact ho
  | cons first rest ih =>
    obtain ⟨w₁,hfirst,hrest⟩ := clean_cons_ok.1 h
    obtain ⟨hd,hdrest⟩ := List.forall_mem_cons.1 hdots
    obtain ⟨hne₁,hnerest⟩ := List.forall_mem_cons.1 hne
    have hr := remade_of_cleanDirectory hl hd hfirst
    refine ih (hr.swept.linkFree hl) hdrest (fun q hq => ?_) hrest (hr.keeps hl hup hdot hne₁ ho)
    rw [placeOf_eq hr.here,placeOf_eq hr.here]
    exact hnerest q hq

theorem cleaned_of_clean (hl : LinkFree w.disk.tree) (hdots : ∀ q ∈ directories, q.Dotless)
    (hup : directories.Pairwise fun first _ => first.Upright) (horder : InOrder w.disk directories)
    (h : run (clean files directories) w = (.ok (),w')) :
      Cleaned files directories w.disk w'.disk := by
  induction directories generalizing w with
  | nil =>
    rw [clean_nil] at h
    obtain ⟨-,rfl⟩ := Prod.mk.inj h
    exact ⟨by simp,by simp⟩
  | cons first rest ih =>
    obtain ⟨w₁,hfirst,hrest⟩ := clean_cons_ok.1 h
    obtain ⟨hd,hdrest⟩ := List.forall_mem_cons.1 hdots
    obtain ⟨hup₁,huprest⟩ := List.pairwise_cons.1 hup
    obtain ⟨ho₁,horest⟩ := List.pairwise_cons.1 horder
    have hr := remade_of_cleanDirectory hl hd hfirst
    have hl₁ := hr.swept.linkFree hl
    have hplace : ∀ q, placeOf w₁.disk q = placeOf w.disk q := placeOf_eq hr.here
    have hc := ih hl₁ hdrest huprest (by simpa only [InOrder,hplace] using horest) hrest
    refine ⟨fun q hq => ?_,apart_of_clean hl hdots h⟩
    · rcases List.mem_cons.1 hq with rfl | hq
      · by_cases hrest' : rest = []
        · subst hrest'
          rw [clean_nil] at hrest
          obtain ⟨-,rfl⟩ := Prod.mk.inj hrest
          exact hr.there
        · obtain ⟨x,hx⟩ := List.exists_mem_of_ne_nil _ hrest'
          refine hasDirectory_of_clean hl₁ hdrest (hup₁ x hx) hd (fun r hr' => ?_) hrest hr.there
          rw [hplace,hplace]; exact ho₁ r hr'
      · exact hc.there q hq

theorem outside_of_clean (hl : LinkFree w.disk.tree) (hdots : ∀ q ∈ directories, q.Dotless)
    (h : run (clean files directories) w = (.ok (),w')) {q : Place}
    (hq : ∀ directory ∈ directories, Tree.isBelow (placeOf w.disk directory) q = false) :
    w'.disk.tree.get? q = w.disk.tree.get? q ∨
      w.disk.tree.get? q = none ∧ w'.disk.tree.get? q = some .directory := by
  induction directories generalizing w with
  | nil =>
    rw [clean_nil] at h
    obtain ⟨-,rfl⟩ := Prod.mk.inj h
    exact .inl rfl
  | cons first rest ih =>
    obtain ⟨w₁,hfirst,hrest⟩ := clean_cons_ok.1 h
    obtain ⟨hd,hdrest⟩ := List.forall_mem_cons.1 hdots
    obtain ⟨hq₁,hqrest⟩ := List.forall_mem_cons.1 hq
    have hr := remade_of_cleanDirectory hl hd hfirst
    have hstep : w₁.disk.tree.get? q = w.disk.tree.get? q ∨
        w.disk.tree.get? q = none ∧ w₁.disk.tree.get? q = some .directory := by
      rcases hr.effect with ⟨-,hgrown⟩ | hcleared
      · exact hgrown.2 q
      · exact .inl (by rw [hcleared.2 q,hq₁]; rfl)
    have hplace : ∀ directory ∈ rest, Tree.isBelow (placeOf w₁.disk directory) q = false := by
      intro directory hd
      rw [placeOf_eq hr.here]; exact hqrest directory hd
    rcases ih (hr.swept.linkFree hl) hdrest hrest hplace with h | ⟨hn,h⟩
    · rw [h]; exact hstep
    · rcases hstep with he | ⟨hn',hdir⟩
      · exact .inr ⟨he ▸ hn,h⟩
      · rw [hn] at hdir; cases hdir

theorem holdsAny_eq_false {d : Disk} {place : Place} : holdsAny d place files = .ok false ↔
    ∀ p ∈ files, ∃ a, settled d p = .ok a ∧ Tree.isBelow place a = false := by
  refine ⟨fun h p hp => not_below_of_holdsAny h hp,fun h => ?_⟩
  induction files with
  | nil => rfl
  | cons first rest ih =>
    obtain ⟨⟨a,hs,hb⟩,hrest⟩ := List.forall_mem_cons.1 h
    rw [holdsAny,hs]
    simp only [bind,Except.bind,hb]
    exact ih hrest

theorem clean_congr {files' : List Path} (hmem : ∀ p, p ∈ files' ↔ p ∈ files)
    (h : run (clean files directories) w = (.ok (),w')) :
    run (clean files' directories) w = (.ok (),w') := by
  induction directories generalizing w with
  | nil => exact h
  | cons first rest ih =>
    obtain ⟨w₁,hfirst,hrest⟩ := clean_cons_ok.1 h
    refine clean_cons_ok.2 ⟨w₁,?_,ih hrest⟩
    obtain ⟨place,hs,hh,-⟩ := cleanDirectory_ok hfirst
    have hh' : holdsAny w.disk place files' = .ok false :=
      holdsAny_eq_false.2 fun p hp => holdsAny_eq_false.1 hh p ((hmem p).1 hp)
    rw [run_cleanDirectory] at hfirst ⊢
    simp only [hs,hh] at hfirst
    simp only [hs,hh']
    exact hfirst

/-- Nothing is registered or reported meanwhile. -/
theorem kept_of_clean (h : run (clean files directories) w = (.ok (),w')) :
    w'.indexes = w.indexes ∧ w'.report = w.report := by
  have hdisk : ∀ {α : Type} {work : DiskWork α} {w w' : World} {r : Except Fault α},
      run (Work.onDisk work) w = (r,w') → w'.indexes = w.indexes ∧ w'.report = w.report := by
    intro α work w w' r h
    rw [run_onDisk] at h
    obtain ⟨-,rfl⟩ := Prod.mk.inj h
    exact ⟨rfl,rfl⟩
  induction directories generalizing w with
  | nil =>
    rw [clean_nil] at h
    obtain ⟨-,rfl⟩ := Prod.mk.inj h
    exact ⟨rfl,rfl⟩
  | cons first rest ih =>
    obtain ⟨w₁,hfirst,hrest⟩ := clean_cons_ok.1 h
    obtain ⟨hindexes,hreport⟩ := ih hrest
    suffices hkept : w₁.indexes = w.indexes ∧ w₁.report = w.report from
      ⟨hindexes.trans hkept.1,hreport.trans hkept.2⟩
    obtain ⟨place,hs,hh,hm⟩ := cleanDirectory_ok hfirst
    rw [run_cleanDirectory] at hfirst
    simp only [hs,hh] at hfirst
    rcases hm with ⟨hp,-⟩ | ⟨hp,-⟩ <;> simp only [hp] at hfirst
    · exact hdisk hfirst
    · obtain ⟨_,w₂,hremove,hmake⟩ := bind_eq_ok.1 hfirst
      obtain ⟨hi₁,hr₁⟩ := hdisk hremove
      obtain ⟨hi₂,hr₂⟩ := hdisk hmake
      exact ⟨hi₂.trans hi₁,hr₂.trans hr₁⟩

end Clean

section Prepared

variable {o : HookOptions} {g : HookGenerator} {files : List Path}
variable {w w' : World}

theorem uses_iff {directory : Path} :
    Uses g.setup files directory ↔ directory ∈ g.outputDirectories files :=
  HookGenerator.mem_outputDirectories.symm

theorem InOrder.eq {d : Disk} {directories : List Path} (h : InOrder d directories)
    {first second : Path}
    (hf : first ∈ directories) (hs : second ∈ directories)
    (he : placeOf d first = placeOf d second) :
    first = second := by
  by_contra hne
  have hplaces : directories.Pairwise fun a b => placeOf d a ≠ placeOf d b := by
    refine List.Pairwise.imp (fun {a b} hab heq => hab ?_) h
    exact heq ▸ List.prefix_refl (placeOf d b)
  have : Std.Symm fun a b => placeOf d a ≠ placeOf d b := ⟨fun _ _ => Ne.symm⟩
  exact hplaces.forall hf hs hne he

theorem isSlashFree_of_follows (hg : g.Follows o) (hslash : '/' ∉ o.namePrefix.toList) :
    g.setup.hook.IsSlashFree := by
  obtain ⟨formatting,broken,templates,rfl⟩ := hg
  exact ⟨hslash,o.extension,rfl⟩

theorem extension_of_follows (hg : g.Follows o) :
    ∃ e : Extension, g.setup.hook.extension = e.text := by
  obtain ⟨formatting,broken,templates,rfl⟩ := hg
  exact ⟨o.extension,rfl⟩

theorem isPart_indexName (hg : g.Follows o) : Path.IsPart g.setup.index.fileName ∧
    g.setup.index.fileName ≠ ".." ∧ g.setup.index.fileName.utf8ByteSize ≤ maxNameBytes := by
  obtain ⟨formatting,broken,templates,rfl⟩ := hg
  refine ⟨?_,?_,?_⟩
  · show Path.IsPart s!"index.{o.extension.text}"
    cases o.extension <;> exact ⟨by decide,by decide,by decide⟩
  · show s!"index.{o.extension.text}" ≠ ".."
    cases o.extension <;> decide
  · show s!"index.{o.extension.text}".utf8ByteSize ≤ maxNameBytes
    cases o.extension <;> decide

theorem prepared (hroot : o.root.Plain) (hg : g.Follows o)
    (hslash : '/' ∉ o.namePrefix.toList) (hl : LinkFree w.disk.tree) (hf : ∀ p ∈ files, p.Plain)
    (horder : InOrder w.disk (g.outputDirectories files))
    (h : run (clean files (g.outputDirectories files)) w = (.ok (),w')) :
    Prepared g.setup w'.disk files := by
  have hdots := HookGenerator.dotless_of_plain hroot hg hf
  have hup := (HookGenerator.pairwise_upright hg files).imp And.left
  have hc := cleaned_of_clean hl hdots hup horder h
  obtain ⟨hhere,hswept⟩ := swept_of_clean hl hdots h
  have hplace : ∀ q, placeOf w'.disk q = placeOf w.disk q := placeOf_eq hhere
  have hnames := isSlashFree_of_follows hg hslash
  obtain ⟨hpart,hdots',hshort⟩ := isPart_indexName hg
  obtain ⟨formatting,broken,templates,rfl⟩ := hg
  refine ⟨⟨hswept.linkFree hl,fun q hq => hc.there q (uses_iff.1 hq),fun q r hq hr he => ?_,
    hpart,hdots',hshort,
    rfl⟩,hnames,rfl,fun p hp q hq => ?_⟩
  · rw [hplace,hplace] at he
    exact horder.eq (uses_iff.1 hq) (uses_iff.1 hr) he
  · rw [hplace,hplace]; exact hc.apart q (uses_iff.1 hq) p hp

end Prepared

end OperationHooks.Run
