import OperationHooks.Proofs.Run.Cleaning
/-!
What is left of the disk when cleaning refuses an output directory. The directories before it in
order have been made anew by then, so only where these were empty nothing is lost.
-/
set_option autoImplicit false

namespace OperationHooks.Run
open Effect Disk

variable {files directories : List Path} {directory p : Path} {w w' : World}

def IsEmptyDirectory (d : Disk) (p : Path) : Prop :=
  ∃ c, d.walk false p = .ok (.entry c .directory) ∧ d.tree.get? c = some .directory ∧
    ∀ q, Tree.isBelow c q = true → d.tree.get? q = none

theorem isEmptyDirectory_of_same {d d' : Disk} (h : Changed Tree.Same d d')
    (he : IsEmptyDirectory d p) :
    IsEmptyDirectory d' p := by
  obtain ⟨c,hw,hget,hnone⟩ := he
  exact ⟨c,(walk_of_same h _ _).trans hw,(h.2 c).trans hget,fun q hq => (h.2 q).trans (hnone q hq)⟩

theorem same_of_cleanDirectory (hdot : directory.Dotless) (he : IsEmptyDirectory w.disk directory)
    (h : run (cleanDirectory files directory) w = (.ok (),w')) :
      Changed Tree.Same w.disk w'.disk := by
  obtain ⟨c,hw,-,hnone⟩ := he
  rcases cleanDirectory_effect hdot h with ⟨hp,-⟩ | ⟨c',hw',-,hcleared,-⟩
  · rw [isPresent_of_walk (walk_true_of_directory hw)] at hp; cases hp
  · rw [hw] at hw'
    obtain ⟨rfl,-⟩ := Found.entry.inj (Except.ok.inj hw')
    refine ⟨hcleared.1,fun q => ?_⟩
    rw [hcleared.2 q]
    split
    · rename_i hq; exact (hnone q hq).symm
    · rfl

theorem same_of_clean (hdot : ∀ q ∈ directories, q.Dotless)
    (he : ∀ q ∈ directories, IsEmptyDirectory w.disk q)
    (h : run (clean files directories) w = (.ok (),w')) : Changed Tree.Same w.disk w'.disk := by
  induction directories generalizing w with
  | nil =>
    rw [clean_nil] at h
    obtain ⟨-,rfl⟩ := Prod.mk.inj h
    exact ⟨rfl,Tree.Same.refl _⟩
  | cons first rest ih =>
    obtain ⟨w₁,hfirst,hrest⟩ := clean_cons_ok.1 h
    obtain ⟨hd,hdrest⟩ := List.forall_mem_cons.1 hdot
    obtain ⟨hf,hfrest⟩ := List.forall_mem_cons.1 he
    have hsame := same_of_cleanDirectory hd hf hfirst
    have htail := ih hdrest (fun q hq => isEmptyDirectory_of_same hsame (hfrest q hq)) hrest
    exact ⟨htail.1.trans hsame.1,hsame.2.trans htail.2⟩

/-- What a refusal leaves behind. The directories in order before the refused one have been made
anew; the tree is as it was if they were there and empty, and, as long as they stand empty now, only
then. -/
theorem refusal_leaves {env : Format.Environment} {d : Disk} {o : HookOptions} {g : HookGenerator}
    (hroot : o.root.Dotless) (hg : HookGenerator.ofOptions env d o = .ok g)
    (hf : g.discover w.disk = .ok files)
    (h : run (clean files (g.outputDirectories files)) w =
      (.error (.config (.holdsDefinitions directory)),w')) :
    ∃ before after, g.outputDirectories files = before ++ directory :: after ∧
      run (clean files before) w = (.ok (),w') ∧ IsRefused files w'.disk directory ∧
      ((∀ q ∈ before, IsEmptyDirectory w.disk q) → Changed Tree.Same w.disk w'.disk) ∧
      ((∀ q ∈ before, IsEmptyDirectory w'.disk q) →
        (Changed Tree.Same w.disk w'.disk ↔ ∀ q ∈ before, IsEmptyDirectory w.disk q)) := by
  have hfollows := HookGenerator.follows_of_ofOptions hg
  obtain ⟨before,after,hsplit,hb,hr⟩ := clean_refused h
  have hdot : ∀ q ∈ before, q.Dotless := fun q hq =>
    HookGenerator.dotless_outputDirectories hroot hfollows hf (by simp [hsplit,hq])
  have hsame := fun he : ∀ q ∈ before, IsEmptyDirectory w.disk q => same_of_clean hdot he hb
  refine ⟨before,after,hsplit,hb,hr,hsame,fun he => ⟨fun hs q hq => ?_,hsame⟩⟩
  exact isEmptyDirectory_of_same hs.same_symm (he q hq)

def refused? : Except Fault Unit → Option Path
  | .error (.config (.holdsDefinitions directory)) => some directory
  | _ => none

theorem eq_of_refused? {r : Except Fault Unit} (h : refused? r = some directory) :
    r = .error (.config (.holdsDefinitions directory)) := by
  unfold refused? at h
  split at h
  · rw [Option.some.inj h]
  · cases h

/-- Two directories that hooks go to: one with hooks of an earlier run, if any, and one that holds
definitions. -/
def besideDefinitions (stale : List (Place × Disk.Entry)) : Disk where
  here := []
  tree := ⟨[(["src"],.directory),(["src","a"],.directory),(["src","a","operations"],.directory),
    (["src","a","operations","A.graphql"],.file (Text.encode "query A { a }") false),
    (["src","a","hooks"],.directory),(["src","b"],.directory),(["src","b","hooks"],.directory),
    (["src","b","hooks","B.graphql"],.file (Text.encode "query B { b }") false)] ++ stale⟩

def staleHook : Place × Disk.Entry :=
  (["src","a","hooks","old.ts"],.file (Text.encode "// stale") false)

def besideFiles : List Path :=
  [⟨.here,["src","a","operations","A.graphql"]⟩,⟨.here,["src","b","hooks","B.graphql"]⟩]

def besideHooks : List Path := [⟨.here,["src","a","hooks"]⟩,⟨.here,["src","b","hooks"]⟩]

theorem besideDefinitions_refused {stale : List (Place × Disk.Entry)}
    (hs : stale = [] ∨ stale = [staleHook]) :
    ∃ (g : HookGenerator) (w' : World),
      HookGenerator.ofOptions [] (besideDefinitions stale) .standard = .ok g ∧
      g.discover (besideDefinitions stale) = .ok besideFiles ∧
      g.outputDirectories besideFiles = besideHooks ∧
      run (clean besideFiles (g.outputDirectories besideFiles))
        (.ofDisk (besideDefinitions stale)) =
        (.error (.config (.holdsDefinitions ⟨.here,["src","b","hooks"]⟩)),w') ∧
      w'.disk.tree.get? staleHook.1 = none := by
  have hok : (HookGenerator.ofOptions [] (besideDefinitions stale) .standard).isOk = true := by
    rcases hs with rfl | rfl <;> decide +kernel
  have hfind :
      Glob.find (besideDefinitions stale) (.ofString ".") "src/**/*.graphql" = .ok besideFiles := by
    rcases hs with rfl | rfl <;> decide +kernel
  have hfiles : (besideFiles.map fun p => (Path.ofString ".").join p.withoutDots).filterM
      (besideDefinitions stale).isFile =
        .ok besideFiles := by rcases hs with rfl | rfl <;> decide +kernel
  have hr : refused? (run (clean besideFiles besideHooks) (.ofDisk (besideDefinitions stale))).1 =
      some ⟨.here,["src","b","hooks"]⟩ := by rcases hs with rfl | rfl <;> decide +kernel
  have hgone :
      (run (clean besideFiles besideHooks) (.ofDisk (besideDefinitions stale))).2.disk.tree.get?
      staleHook.1 = none := by rcases hs with rfl | rfl <;> decide +kernel
  cases hg : HookGenerator.ofOptions [] (besideDefinitions stale) .standard with
  | error e => rw [hg] at hok; cases hok
  | ok g =>
    have hfollows := HookGenerator.follows_of_ofOptions hg
    have hf : g.discover (besideDefinitions stale) = .ok besideFiles :=
      (HookGenerator.discover_eq_ok hfollows).2 (discover_of_find hfind hfiles (by decide +kernel)
        (by decide +kernel) (by decide +kernel))
    have hd : g.outputDirectories besideFiles = besideHooks := by
      rw [HookGenerator.outputDirectories_eq hfollows]
      exact Path.sorted_of_pairwise (by decide +kernel) (by decide +kernel)
    refine ⟨g,_,rfl,hf,hd,?_,hgone⟩
    rw [hd,← eq_of_refused? hr]

/-- The hooks of an earlier run are gone when the second directory is refused. -/
theorem refusal_not_atomic : ∃ (g : HookGenerator) (w' : World),
    HookGenerator.ofOptions [] (besideDefinitions [staleHook]) .standard = .ok g ∧
      g.discover (besideDefinitions [staleHook]) = .ok besideFiles ∧
      run (clean besideFiles (g.outputDirectories besideFiles))
        (.ofDisk (besideDefinitions [staleHook])) =
        (.error (.config (.holdsDefinitions ⟨.here,["src","b","hooks"]⟩)),w') ∧
      ¬ Changed Tree.Same (besideDefinitions [staleHook]) w'.disk := by
  obtain ⟨g,w',hg,hf,-,hr,hgone⟩ := besideDefinitions_refused (.inr (Eq.refl [staleHook]))
  refine ⟨g,w',hg,hf,hr,fun hs => ?_⟩
  have hstale := hs.2 staleHook.1
  rw [hgone] at hstale
  cases hstale

theorem refusal_beside_empty : ∃ (g : HookGenerator) (w' : World),
    HookGenerator.ofOptions [] (besideDefinitions []) .standard = .ok g ∧
      g.discover (besideDefinitions []) = .ok besideFiles ∧
      run (clean besideFiles (g.outputDirectories besideFiles)) (.ofDisk (besideDefinitions [])) =
        (.error (.config (.holdsDefinitions ⟨.here,["src","b","hooks"]⟩)),w') ∧
      Changed Tree.Same (besideDefinitions []) w'.disk := by
  obtain ⟨g,w',hg,hf,hd,hr,-⟩ := besideDefinitions_refused (.inl (Eq.refl []))
  refine ⟨g,w',hg,hf,hr,?_⟩
  have hroot : HookOptions.standard.root.Dotless := Path.dotless_ofString "."
  obtain ⟨before,after,hsplit,-,-,hsame,-⟩ :=
    refusal_leaves (w := .ofDisk (besideDefinitions [])) hroot hg hf hr
  refine hsame fun q hq => ?_
  -- Only the empty directory comes before the refused one.
  have hq : q = ⟨.here,["src","a","hooks"]⟩ := by
    rw [hd] at hsplit
    cases before with
    | nil => cases hq
    | cons first rest =>
      obtain ⟨rfl,htail⟩ := List.cons.inj hsplit
      cases rest with
      | nil => exact List.mem_singleton.1 hq
      | cons second rest => simp at htail
  subst hq
  have hw : (besideDefinitions []).walk false ⟨.here,["src","a","hooks"]⟩ =
      .ok (.entry ["src","a","hooks"] .directory) := by decide +kernel
  exact ⟨_,hw,rfl,fun q => Tree.get?_of_entries (by decide +kernel)⟩

end OperationHooks.Run
