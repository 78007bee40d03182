import OperationHooks.Proofs.Run.Cleaning
/-!
Which definition files can still be read when no output directory was refused. The guard looks at
where a definition is, the cleaning at what leads there, so a link below an output directory is
lost.
-/
set_option autoImplicit false

namespace OperationHooks.Run
open Effect Disk

variable {files directories : List Path} {directory p : Path} {w w' : World} {bytes : List UInt8}

/-- The places a path leads through beside those above its end: links, and what two dots leave
again. -/
def detours (d : Disk) (p : Path) : List Place :=
  match d.walk true p with
  | .ok found => (trail d true p).filter fun q => !q.isPrefixOf found.place
  | .error _ => []

theorem detours_of_kept {d d' : Disk} (h : KeptAlong p d d') : detours d' p = detours d p := by
  simp only [detours,h.walk_eq,h.trail_eq]

theorem not_below_of_detours {d : Disk} {a c : Place} (hr : d.read p = .ok bytes)
    (hs : settled d p = .ok a) (ha : Tree.isBelow c a = false)
    (hd : ∀ q ∈ detours d p, Tree.isBelow c q = false) :
    ∀ q ∈ trail d true p, Tree.isBelow c q = false := by
  intro q hq
  obtain ⟨e,executable,hw⟩ := read_eq_ok.1 hr
  obtain rfl : a = e := place_of_settled hs hw
  by_cases hpre : q <+: a
  · refine Bool.eq_false_iff.2 fun hb => ?_
    rw [Tree.isBelow_of_isBelow_of_prefix hb hpre] at ha
    cases ha
  · have hb : q.isPrefixOf a = false :=
      Bool.eq_false_iff.2 fun hb => hpre (List.isPrefixOf_iff_prefix.1 hb)
    exact hd q (by simp [detours,hw,hq,Found.place,hb])

def clearedPlace (d : Disk) (directory : Path) : List Place :=
  match d.walk false directory with
  | .ok (.entry c .directory) => [c]
  | _ => []

def clearedPlaces (files : List Path) : List Path → World → List Place
  | [], _ => []
  | directory :: rest, w =>
    clearedPlace w.disk directory ++ clearedPlaces files rest
      (run (cleanDirectory files directory) w).2

theorem clearedPlaces_cons {w₁ : World} {rest : List Path}
    (h : run (cleanDirectory files directory) w = (.ok (),w₁)) :
    clearedPlaces files (directory :: rest) w =
      clearedPlace w.disk directory ++ clearedPlaces files rest w₁ := by
  rw [clearedPlaces,h]

theorem mem_clearedPlace {d : Disk} {c : Place} :
    c ∈ clearedPlace d directory ↔ d.walk false directory = .ok (.entry c .directory) := by
  unfold clearedPlace
  split
  · rename_i c' hw; simp [hw,eq_comm]
  · rename_i hw
    constructor
    · intro h; cases h
    · intro h; exact absurd h (hw c)

theorem keptAlong_of_cleanDirectory (hdot : directory.Dotless)
    (h : run (cleanDirectory files directory) w = (.ok (),w')) (hp : p ∈ files)
    (hr : w.disk.read p = .ok bytes)
    (hd : ∀ c ∈ clearedPlace w.disk directory, ∀ q ∈ detours w.disk p, Tree.isBelow c q = false) :
    KeptAlong p w.disk w'.disk := by
  rcases cleanDirectory_effect hdot h with ⟨-,hgrown⟩ | ⟨c,hw,-,hcleared,hguard⟩
  · exact keptAlong_of_grown hgrown hr
  · obtain ⟨a,hs,ha⟩ := hguard p hp
    exact keptAlong_of_cleared hcleared
      (not_below_of_detours hr hs ha (hd c (mem_clearedPlace.2 hw)))

theorem keptAlong_of_clean (hdot : ∀ q ∈ directories, q.Dotless)
    (h : run (clean files directories) w = (.ok (),w')) (hp : p ∈ files)
    (hr : w.disk.read p = .ok bytes)
    (hd : ∀ c ∈ clearedPlaces files directories w, ∀ q ∈ detours w.disk p,
      Tree.isBelow c q = false) :
    KeptAlong p w.disk w'.disk := by
  induction directories generalizing w with
  | nil =>
    rw [clean_nil] at h
    obtain ⟨-,rfl⟩ := Prod.mk.inj h
    exact KeptAlong.refl _ _
  | cons first rest ih =>
    obtain ⟨w₁,hfirst,hrest⟩ := clean_cons_ok.1 h
    obtain ⟨hd₁,hdrest⟩ := List.forall_mem_cons.1 hdot
    rw [clearedPlaces_cons hfirst] at hd
    have hkept := keptAlong_of_cleanDirectory hd₁ hfirst hp hr
      fun c hc => hd c (List.mem_append_left _ hc)
    refine hkept.trans (ih hdrest hrest (hkept.read_eq.trans hr) fun c hc q hq => ?_)
    rw [detours_of_kept hkept] at hq
    exact hd c (List.mem_append_right _ hc) q hq

theorem below_of_changed (hdot : ∀ q ∈ directories, q.Dotless)
    (h : run (clean files directories) w = (.ok (),w')) {q : Place}
    (hq : w.disk.tree.get? q ≠ none) :
    w'.disk.tree.get? q = w.disk.tree.get? q ∨
      ∃ c ∈ clearedPlaces files directories w, Tree.isBelow c q = true := by
  induction directories generalizing w with
  | nil =>
    rw [clean_nil] at h
    obtain ⟨-,rfl⟩ := Prod.mk.inj h
    exact .inl rfl
  | cons first rest ih =>
    obtain ⟨w₁,hfirst,hrest⟩ := clean_cons_ok.1 h
    obtain ⟨hd₁,hdrest⟩ := List.forall_mem_cons.1 hdot
    rw [clearedPlaces_cons hfirst]
    have htail : w₁.disk.tree.get? q = w.disk.tree.get? q →
        w'.disk.tree.get? q = w.disk.tree.get? q ∨
        ∃ c ∈ clearedPlace w.disk first ++ clearedPlaces files rest w₁,
          Tree.isBelow c q = true := by
      intro hsame
      rcases ih hdrest hrest (by rw [hsame]; exact hq) with h' | ⟨c,hc,hb⟩
      · exact .inl (h'.trans hsame)
      · exact .inr ⟨c,List.mem_append_right _ hc,hb⟩
    rcases cleanDirectory_effect hd₁ hfirst with ⟨-,hgrown⟩ | ⟨c,hw,-,hcleared,-⟩
    · exact htail ((hgrown.2 q).resolve_right fun h => hq h.1)
    · by_cases hb : Tree.isBelow c q = true
      · exact .inr ⟨c,List.mem_append_left _ (mem_clearedPlace.2 hw),hb⟩
      · exact htail (by simp [hcleared.2 q,hb])

theorem here_of_clean (hdot : ∀ q ∈ directories, q.Dotless)
    (h : run (clean files directories) w = (.ok (),w')) : w'.disk.here = w.disk.here := by
  induction directories generalizing w with
  | nil =>
    rw [clean_nil] at h
    obtain ⟨-,rfl⟩ := Prod.mk.inj h
    rfl
  | cons first rest ih =>
    obtain ⟨w₁,hfirst,hrest⟩ := clean_cons_ok.1 h
    obtain ⟨hd₁,hdrest⟩ := List.forall_mem_cons.1 hdot
    refine (ih hdrest hrest).trans ?_
    rcases cleanDirectory_effect hd₁ hfirst with ⟨-,hgrown⟩ | ⟨c,-,-,hcleared,-⟩
    · exact hgrown.1
    · exact hcleared.1

/-- Every discovered definition can still be read after the cleaning if no detour on its path lies
below a cleared place; as long as nothing new stands below these places, only then. -/
theorem clean_keeps {env : Format.Environment} {d : Disk} {o : HookOptions} {g : HookGenerator}
    (hroot : o.root.Dotless) (hg : HookGenerator.ofOptions env d o = .ok g)
    (hf : g.discover w.disk = .ok files)
    (h : run (clean files (g.outputDirectories files)) w = (.ok (),w')) (hp : p ∈ files) :
    ∃ bytes, w.disk.read p = .ok bytes ∧
      ((∀ c ∈ clearedPlaces files (g.outputDirectories files) w, ∀ q ∈ detours w.disk p,
        Tree.isBelow c q = false) → w'.disk.read p = .ok bytes) ∧
      ((∀ c ∈ clearedPlaces files (g.outputDirectories files) w, ∀ q, Tree.isBelow c q = true →
          w'.disk.tree.get? q = none) →
        (w'.disk.read p = .ok bytes ↔ ∀ c ∈ clearedPlaces files (g.outputDirectories files) w,
          ∀ q ∈ detours w.disk p, Tree.isBelow c q = false)) := by
  have hfollows := HookGenerator.follows_of_ofOptions hg
  have hdot : ∀ q ∈ g.outputDirectories files, q.Dotless := fun q hq =>
    HookGenerator.dotless_outputDirectories hroot hfollows hf hq
  obtain ⟨-,bytes,hr⟩ := mem_discover ((HookGenerator.discover_eq_ok hfollows).1 hf) hp
  have hkeeps := fun hd => (keptAlong_of_clean hdot h hp hr hd).read_eq.trans hr
  refine ⟨bytes,hr,hkeeps,fun hnone => ⟨fun hr' c hc q hq => ?_,hkeeps⟩⟩
  obtain ⟨_,_,hw⟩ := read_eq_ok.1 hr
  obtain ⟨_,_,hw'⟩ := read_eq_ok.1 hr'
  have hchange : ∀ q ∈ trail w.disk true p,
      w'.disk.tree.get? q = w.disk.tree.get? q ∨ w'.disk.tree.get? q = none := by
    intro q hq
    refine (below_of_changed hdot h (present_of_walk hw q hq)).imp_right ?_
    rintro ⟨c,hc,hb⟩
    exact hnone c hc q hb
  have hq : q ∈ trail w.disk true p := by
    simp only [detours,hw] at hq
    exact (List.mem_filter.1 hq).1
  obtain ⟨hsame,hthere⟩ := kept_of_walk (here_of_clean hdot h) hchange hw' q hq
  refine Bool.eq_false_iff.2 fun hb => hthere ?_
  rw [← hsame]; exact hnone c hc q hb

def linkedDefinition : Disk where
  here := []
  tree := ⟨[(["src"],.directory),(["src","a"],.directory),
    (["src","a","X.graphql"],.link "../../other/X.graphql"),(["other"],.directory),
    (["other","X.graphql"],.file (Text.encode "query X { x }") false),(["src","hooks"],.directory),
    (["src","hooks","old.ts"],.file (Text.encode "// stale") false)]⟩

theorem linkedDefinition_cleaned (destination : String) (directory : Path)
    (hok : (HookGenerator.ofOptions [] linkedDefinition { HookOptions.standard with
      destination }).isOk)
    (hd : ((Path.ofString "src/a") / destination).fold = directory)
    (hclean :
      (run (clean [.ofString "src/a/X.graphql"] [directory]) (.ofDisk linkedDefinition)).1.isOk) :
    ∃ (g : HookGenerator) (w' : World),
      HookGenerator.ofOptions [] linkedDefinition { HookOptions.standard with destination } =
        .ok g ∧
      g.discover linkedDefinition = .ok [.ofString "src/a/X.graphql"] ∧
      g.outputDirectories [.ofString "src/a/X.graphql"] = [directory] ∧
      run (clean [.ofString "src/a/X.graphql"] [directory]) (.ofDisk linkedDefinition) =
        (.ok (),w') := by
  have hfind : Glob.find linkedDefinition (.ofString ".") "src/**/*.graphql" =
      .ok [.ofString "src/a/X.graphql"] := by decide +kernel
  have hfound : discover linkedDefinition (.ofString ".") "src/**/*.graphql" ["index.ts"] =
      .ok [.ofString "src/a/X.graphql"] :=
    discover_of_find hfind (by decide +kernel) (by decide +kernel) (by simp) (by simp)
  cases hg :
    HookGenerator.ofOptions [] linkedDefinition { HookOptions.standard with destination } with
  | error e => rw [hg] at hok; cases hok
  | ok g =>
    have hfollows := HookGenerator.follows_of_ofOptions hg
    have hf : g.discover linkedDefinition = .ok [.ofString "src/a/X.graphql"] :=
      (HookGenerator.discover_eq_ok hfollows).2 hfound
    have hdirs : g.outputDirectories [.ofString "src/a/X.graphql"] = [directory] := by
      rw [HookGenerator.outputDirectories_eq hfollows,← hd]
      exact Path.sorted_of_pairwise (by simp) (by simp)
    cases hr : run (clean [.ofString "src/a/X.graphql"] [directory]) (.ofDisk linkedDefinition) with
    | mk r w' =>
      rw [hr] at hclean
      cases r with
      | error e => cases hclean
      | ok _ => exact ⟨g,w',rfl,hf,hdirs,rfl⟩

/-- Hooks sent to the directory of a link clear the link away, though what it points at is
elsewhere. -/
theorem clean_loses_linked_definition :
    ∃ (g : HookGenerator) (files : List Path) (w' : World) (p : Path),
    HookGenerator.ofOptions [] linkedDefinition { HookOptions.standard with destination := "." } =
      .ok g ∧
      g.discover linkedDefinition = .ok files ∧
      run (clean files (g.outputDirectories files)) (.ofDisk linkedDefinition) = (.ok (),w') ∧
      p ∈ files ∧ linkedDefinition.read p = .ok (Text.encode "query X { x }") ∧
      ∀ bytes, w'.disk.read p ≠ .ok bytes := by
  obtain ⟨g,w',hg,hf,hd,hr⟩ := linkedDefinition_cleaned "." (.ofString "src/a")
    (by decide +kernel) (by decide +kernel) (by decide +kernel)
  have hlost : ((run (clean [.ofString "src/a/X.graphql"] [.ofString "src/a"])
      (.ofDisk linkedDefinition)).2.disk.read (.ofString "src/a/X.graphql")).isOk = false := by
    decide +kernel
  refine ⟨g,_,w',.ofString "src/a/X.graphql",hg,
    hf,by rw [hd]; exact hr,by simp,by decide +kernel,?_⟩
  intro bytes hb
  rw [hr,hb] at hlost
  cases hlost

theorem clean_keeps_linked_definition :
    ∃ (g : HookGenerator) (files : List Path) (w' : World) (p : Path),
    HookGenerator.ofOptions [] linkedDefinition .standard = .ok g ∧
      g.discover linkedDefinition = .ok files ∧
      run (clean files (g.outputDirectories files)) (.ofDisk linkedDefinition) = (.ok (),w') ∧
      p ∈ files ∧ w'.disk.read p = linkedDefinition.read p := by
  obtain ⟨g,w',hg,hf,hd,hr⟩ := linkedDefinition_cleaned "../hooks" (.ofString "src/hooks")
    (by decide +kernel) (by decide +kernel) (by decide +kernel)
  have hroot : HookOptions.standard.root.Dotless := Path.dotless_ofString "."
  rw [← hd] at hr
  refine ⟨g,_,w',.ofString "src/a/X.graphql",hg,hf,hr,by simp,?_⟩
  obtain ⟨bytes,hread,hkeeps,-⟩ := clean_keeps (w := .ofDisk linkedDefinition) hroot hg hf hr
    (List.mem_singleton.2 rfl)
  rw [hd] at hkeeps
  exact (hkeeps (by decide +kernel)).trans hread.symm

end OperationHooks.Run
