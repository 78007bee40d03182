import OperationHooks.Proofs.Run.Refusal
import OperationHooks.Proofs.Run.Touching
/-!
What a run leaves alone where there are no links: everything that is neither an output directory nor
below one. On the way to output directories missing directories may be made.
-/
set_option autoImplicit false

namespace OperationHooks.Run
open Effect Disk Index Relation

def IsWithin (d : Disk) (directories : List Path) (q : Place) : Prop :=
  ∃ directory ∈ directories, placeOf d directory <+: q

instance (d : Disk) (directories : List Path) (q : Place) : Decidable (IsWithin d directories q) :=
  inferInstanceAs (Decidable (∃ directory ∈ directories, _))

def IsOnTheWay (d : Disk) (directories : List Path) (q : Place) : Prop :=
  ∃ directory ∈ directories, ∃ p : Path, p.anchor = directory.anchor ∧ p.parts <+: directory.parts ∧
    placeOf d p = q

structure Confined (directories : List Path) (base d : Disk) : Prop where
  here : d.here = base.here
  linkFree : LinkFree d.tree
  outside : ∀ q, ¬ IsWithin base directories q → d.tree.get? q = base.tree.get? q ∨
    base.tree.get? q = none ∧ d.tree.get? q = some .directory ∧ IsOnTheWay base directories q

section Removal

variable {d : Disk} {p : Path}

theorem removeDirectory_cases (p : Path) (d : Disk) : (run (removeDirectory p) d).2 = d ∨
    ∃ c, d.walk false p = .ok (.entry c .directory) ∧
      (run (removeDirectory p) d).2 = { d with tree := d.tree.remove c } := by
  unfold removeDirectory
  by_cases hp : p.parts.isEmpty = true
  · exact .inl (by simp [hp,run_bind,refuse])
  · rw [if_neg hp]
    simp only [run_bind,run_get]
    cases hw : d.walk false p with
    | error fault => exact .inl rfl
    | ok found =>
      cases found with
      | missing c => exact .inl rfl
      | entry c e =>
        cases e with
        | file bytes executable => exact .inl rfl
        | link target => exact .inl rfl
        | directory =>
          dsimp only
          by_cases hl : (p.parts.getLast? == some "..") = true
          · exact .inl (by simp [hl,run_bind,refuse])
          · rw [if_neg hl]
            exact .inr ⟨c,rfl,rfl⟩

theorem removeTree_cases (p : Path) (d : Disk) : (run (removeTree p) d).2 = d ∨
    ∃ c, d.walk false p = .ok (.entry c .directory) ∧
      (run (removeTree p) d).2 = (run (removeDirectory p) { d with tree := d.tree.clear c }).2 := by
  unfold removeTree
  simp only [run_bind,run_get]
  cases hw : d.walk false p with
  | error fault => exact .inl rfl
  | ok found =>
    cases found with
    | missing c => exact .inl rfl
    | entry c e =>
      cases e with
      | file bytes executable => exact .inl rfl
      | directory => exact .inr ⟨c,rfl,rfl⟩
      | link target =>
        refine .inl ?_
        dsimp only
        cases d.walk true p with
        | error fault => rfl
        | ok found => cases found <;> rfl

end Removal

section Confined

variable {directories : List Path} {base d : Disk} {directory p : Path} {name : String}

theorem linkFree_put {t : Tree} {c : Place} {e : Disk.Entry} (hl : LinkFree t) (hc : c ≠ [])
    (he : ∀ target, e ≠ .link target) : LinkFree (t.put c e) := by
  intro q target hq
  by_cases hqc : q = c
  · subst hqc
    rw [Tree.get?_put_self hc] at hq
    exact he target (Option.some.inj hq)
  · rw [Tree.get?_put_of_ne hc _ hqc] at hq
    exact hl q target hq

namespace Confined

theorem refl (hl : LinkFree base.tree) : Confined directories base base :=
  ⟨rfl,hl,fun _ _ => .inl rfl⟩

theorem within (h : Confined directories base d) {d' : Disk} (hhere : d'.here = d.here)
    (hl : LinkFree d'.tree)
    (hw : ∀ q, ¬ IsWithin base directories q → d'.tree.get? q = d.tree.get? q) :
    Confined directories base d' :=
  ⟨hhere.trans h.here,hl,fun q hq => by rw [hw q hq]; exact h.outside q hq⟩

theorem makeDirectory (h : Confined directories base d) (hd : directory ∈ directories)
    (ha : p.anchor = directory.anchor) (hp : p.parts <+: directory.parts) :
    Confined directories base (run (Disk.makeDirectory p) d).2 := by
  rcases makeDirectory_cases p d with ⟨c,hw,hm⟩ | ⟨fault,-,hm⟩ <;> rw [hm]
  · have hnone := none_of_missing hw
    have hc := Tree.ne_nil_of_get? hnone
    have hplace : c = placeOf base p := (place_of_walk h.linkFree hw).trans (placeOf_eq h.here p)
    refine ⟨h.here,linkFree_put h.linkFree hc (by simp),fun q hq => ?_⟩
    by_cases hqc : q = c
    · subst hqc
      refine .inr ⟨?_,Tree.get?_put_self hc _,directory,hd,p,ha,hp,hplace.symm⟩
      rcases h.outside q hq with he | ⟨he,-⟩
      · rw [← he,hnone]
      · exact he
    · rw [putAt,Tree.get?_put_of_ne hc _ hqc]
      exact h.outside q hq
  · exact h

theorem makeDirectories (h : Confined directories base d) (hd : directory ∈ directories) :
    Confined directories base (run (Disk.makeDirectories directory) d).2 :=
  makeDirectoriesFrom_preserves _ (fun _ ha hp _ h => h.makeDirectory hd ha hp) h

theorem removeTree (h : Confined directories base d) (hd : directory ∈ directories) :
    Confined directories base (run (Disk.removeTree directory) d).2 := by
  have hplace : ∀ {d : Disk} {c : Place}, Confined directories base d →
      d.walk false directory = .ok (.entry c .directory) → c = placeOf base directory :=
    fun h hw => (place_of_walk h.linkFree hw).trans (placeOf_eq h.here directory)
  rcases removeTree_cases directory d with hr | ⟨c,hw,hr⟩ <;> rw [hr]
  · exact h
  · obtain rfl := hplace h hw
    have hclear :
        Confined directories base { d with tree := d.tree.clear (placeOf base directory) } := by
      refine h.within rfl (fun q target hq => ?_) fun q hq => ?_
      · rw [Tree.get?_clear] at hq
        split at hq
        · cases hq
        · exact h.linkFree q target hq
      · rw [Tree.get?_clear,if_neg]
        exact fun hb => hq ⟨directory,hd,(Tree.isBelow_iff.1 hb).1⟩
    rcases removeDirectory_cases directory
      { d with tree := d.tree.clear (placeOf base directory) } with hr | ⟨c,hw,hr⟩ <;> rw [hr]
    · exact hclear
    · obtain rfl := hplace hclear hw
      refine hclear.within rfl (fun q target hq => ?_) fun q hq => ?_
      · rcases Tree.get?_remove_cases (d.tree.clear (placeOf base directory))
          (placeOf base directory) q with he | ⟨-,he⟩
        · exact hclear.linkFree q target (he.symm.trans hq)
        · cases he.symm.trans hq
      · refine (Tree.get?_remove_cases _ _ q).resolve_right fun he => ?_
        exact hq ⟨directory,hd,he.1 ▸ List.prefix_refl _⟩

theorem write (h : Confined directories base d) (hp : IsWithin base directories (placeOf base p))
    (hne : placeOf base p ≠ []) (bytes : List UInt8) :
    Confined directories base (run (Disk.write p bytes) d).2 := by
  rcases write_spec h.linkFree p bytes with ⟨-,hw⟩ | ⟨-,fault,hw⟩ <;> rw [hw]
  · rw [placeOf_eq h.here]
    refine h.within rfl (linkFree_put h.linkFree hne (by simp [stored])) fun q hq => ?_
    exact Tree.get?_put_of_ne hne _ fun he => hq (he ▸ hp)
  · exact h

/-- A file is saved in one of the directories. -/
theorem save (h : Confined directories base d) (hd : directory ∈ directories) (hdot : name ≠ ".")
    (hup : name ≠ "..") (text : String) :
    Confined directories base (run (OperationHooks.save (childOf directory name) text) d).2 := by
  have hmake := h.makeDirectories hd
  have hplace := placeOf_childOf base directory hdot hup
  have hwithin : IsWithin base directories (placeOf base (childOf directory name)) :=
    ⟨directory,hd,hplace ▸ List.prefix_append _ _⟩
  unfold OperationHooks.save
  rw [run_about,parent_childOf,run_bind]
  cases hr : run (Disk.makeDirectories directory) d with
  | mk r d₁ =>
    rw [hr] at hmake
    cases r with
    | error fault => exact hmake
    | ok u => exact hmake.write hwithin (by simp [hplace]) _

end Confined

end Confined

section Run

variable {o : HookOptions} {g : HookGenerator} {files : List Path} {schedule : Schedule}
  {base d d' : Disk}
variable {w w' : World}

theorem confined_of_touches (hg : g.Follows o) (hslash : '/' ∉ o.namePrefix.toList)
    (h : Confined (g.outputDirectories files) base d) (ht : Touches g.setup files d d') :
    Confined (g.outputDirectories files) base d' := by
  have hfree := isSlashFree_of_follows hg hslash
  obtain ⟨hindex,hindex',-⟩ := isPart_indexName hg
  have hused : ∀ source ∈ files, g.setup.hook.outputDirectory source ∈ g.outputDirectories files :=
    fun source hm => HookGenerator.mem_outputDirectories.2 ⟨source,hm,rfl⟩
  cases ht with
  | remove source hm => exact h.removeTree (hused source hm)
  | make source hm => exact h.makeDirectories (hused source hm)
  | module q text hq =>
    obtain ⟨e,hm,hn,rfl⟩ := hq
    have hname := hfree.isPart hn
    rw [hfree.outputPath_eq hn]
    exact h.save (hused _ hm) hname.1.2.1 hname.2 text
  | index q text hq =>
    obtain ⟨m,⟨e,hm,hn,rfl⟩,rfl⟩ := hq
    rw [hfree.outputPath_eq hn,parent_childOf,Settings.indexPath,div_part _ hindex]
    exact h.save (hused _ hm) hindex.2.1 hindex' text

theorem confined_of_all (hg : g.Follows o) (hslash : '/' ∉ o.namePrefix.toList)
    (h : Confined (g.outputDirectories files) base d)
    (ht : ReflTransGen (Touches g.setup files) d d') :
    Confined (g.outputDirectories files) base d' := by
  induction ht with
  | refl => exact h
  | tail _ ht ih => exact confined_of_touches hg hslash ih ht

/-- However a run ends, it leaves alone what is no output directory and below none, but for
directories that it makes on the way to one; and without files to work on it leaves everything
alone. -/
theorem run_confined {r : Except Halt Report} (hg : g.Follows o)
    (hslash : '/' ∉ o.namePrefix.toList)
    (hl : LinkFree w.disk.tree) (h : run (runBy g schedule) w = (r,w')) :
    ((∀ files, g.discover w.disk = .ok files → files = []) → w'.disk = w.disk) ∧
    ∀ files, g.discover w.disk = .ok files → schedule.files.Perm files →
      w'.disk.here = w.disk.here ∧ ∀ q, ¬ IsWithin w.disk (g.outputDirectories files) q →
        w'.disk.tree.get? q = w.disk.tree.get? q ∨ w.disk.tree.get? q = none ∧
          w'.disk.tree.get? q = some .directory ∧
          IsOnTheWay w.disk (g.outputDirectories files) q := by
  refine ⟨fun hnone => disk_of_unfound hnone h,fun files hfound hperm => ?_⟩
  have htouches := touches_of_run hfound (fun p hp => hperm.mem_iff.1 hp) h
  have hconfined := confined_of_all hg hslash (.refl hl) htouches
  exact ⟨hconfined.here,hconfined.outside⟩

end Run

/-- Definitions in an output directory, and a stale hook in another one that is cleared before. -/
def besideStale : Trial where
  disk := besideDefinitions [staleHook]
  options := .standard
  files := besideFiles
  directories := besideHooks

theorem isSound_besideStale : besideStale.IsSound := Trial.isSound_of_checks (by decide +kernel)

theorem refused_run_confined : ∃ g r w', g.Follows besideStale.options ∧
    g.discover besideStale.disk = .ok besideStale.files ∧
    run (runBy g (besideStale.schedule byTurns)) (.ofDisk besideStale.disk) = (r,w') ∧
    (∀ report, r ≠ .ok report) ∧ w'.disk.tree.get? ["src","a","operations","A.graphql"] =
      some (.file (Text.encode "query A { a }") false) := by
  obtain ⟨g,hg,hfound,hdirs,-⟩ :=
    isSound_besideStale.exists_generator (fun _ => true) (by decide +kernel)
  have hfollows := HookGenerator.follows_of_ofOptions hg
  have hl : LinkFree besideStale.disk.tree := (isFileTree_of_formsTree (by decide +kernel)).linkFree
  have hrefused : refused? (run (clean besideStale.files besideStale.directories)
      (besideStale.begun.cleaning besideStale.files.length)).1 =
        some ⟨.here,["src","b","hooks"]⟩ := by
    decide +kernel
  have hrun : run (runBy g (besideStale.schedule byTurns)) (.ofDisk besideStale.disk) = _ :=
    run_runBy_of_discover (w := .ofDisk besideStale.disk) hfound (List.cons_ne_nil _ _)
  obtain ⟨r,w',hself⟩ :
    ∃ r w', run (runBy g (besideStale.schedule byTurns)) (.ofDisk besideStale.disk) = (r,w') :=
    ⟨_,_,rfl⟩
  refine ⟨g,r,w',hfollows,hfound,hself,fun report hr => ?_,?_⟩
  · obtain ⟨w₁,p,paths,inner,hclean,-⟩ := runOn_ok.1 ((hrun.symm.trans hself).trans (by rw [hr]))
    rw [show (besideStale.schedule byTurns).files = besideStale.files from rfl,hdirs] at hclean
    rw [show besideStale.begun =
      (World.ofDisk besideStale.disk).begun besideStale.files.length from rfl,hclean] at hrefused
    cases hrefused
  · obtain ⟨-,houtside⟩ :=
      run_confined (w := .ofDisk besideStale.disk) hfollows (by decide +kernel) hl hself
    obtain ⟨-,houtside⟩ := houtside besideStale.files hfound (.refl _)
    rw [hdirs] at houtside
    rcases houtside ["src","a","operations","A.graphql"] (by decide +kernel) with he | ⟨he,-⟩
    · exact he.trans (by decide +kernel)
    · exact absurd he (by decide +kernel)

end OperationHooks.Run
