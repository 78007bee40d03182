import OperationHooks.Proofs.Index.Modes
/-!
Registrations and flushes in any order, of which any may fail while the caller goes on. An index
that is not dirty says what its directory has registered, whatever has failed before.
-/
set_option autoImplicit false

namespace OperationHooks.Index
open Effect Disk

def Spares (s : Settings) (used : Path → Prop) (d d' : Disk) : Prop :=
  ∀ directory, used directory → ∀ c, LeadsTo d (s.indexPath directory) c →
    LeadsTo d' (s.indexPath directory) c ∧ d'.tree.get? c = d.tree.get? c

/-- A world that calls lead to, each with whatever result, and the registrations among them. Between
calls others may be at work on the disk, so that a call fails that went through before, or the other
way round. -/
inductive History (s : Settings) (used : Path → Prop) (w : World) : List (Path × String) →
    World → Prop where
  | start : History s used w [] w
  | register {calls : List (Path × String)} {w₁ w₂ : World} {directory : Path} {baseName : String}
      {result : Except Fault Unit} : History s used w calls w₁ → used directory →
      run (register s directory baseName) w₁ = (result,w₂) →
      History s used w (calls ++ [(directory,baseName)]) w₂
  | flush {calls : List (Path × String)} {w₁ w₂ : World} {directory : Path}
      {result : Except Fault (Option Path)} : History s used w calls w₁ →
      run (flush s directory) w₁ = (result,w₂) → History s used w calls w₂
  | flushAll {calls : List (Path × String)} {w₁ w₂ : World} {result : Except Fault (List Path)} :
      History s used w calls w₁ → run (flushAll s) w₁ = (result,w₂) → History s used w calls w₂
  | others {calls : List (Path × String)} {w₁ : World} {disk : Disk} : History s used w calls w₁ →
      Spares s used w₁.disk disk → History s used w calls { w₁ with disk }

structure Told (s : Settings) (used : Path → Prop) (calls : List (Path × String))
    (w : World) : Prop where
  unlocked : ∀ directory, (w.indexes.state directory).locked = false
  entries : ∀ directory baseName, baseName ∈ (w.indexes.state directory).entries ↔
  (directory,baseName) ∈ calls
  nodup : ∀ directory, (w.indexes.state directory).entries.Nodup
  listed : (w.indexes.map Prod.fst).Nodup
  earned : ∀ directory, (w.indexes.state directory).dirty = true →
  (w.indexes.state directory).entries ≠ []
  stands : ∀ directory, (w.indexes.state directory).entries ≠ [] →
    (w.indexes.state directory).dirty = false →
    HasIndex s used directory (w.indexes.state directory).entries w.disk

section Told

variable {s : Settings} {used : Path → Prop} {calls calls' : List (Path × String)}
  {directory : Path}
variable {baseName : String} {state : State} {w w' w'' : World} {d d' : Disk}

theorem HasIndex.spared {entries : List String} (hu : used directory)
    (h : HasIndex s used directory entries d) (hs : Spares s used d d') :
    HasIndex s used directory entries d' := by
  obtain ⟨before,text,hf,c,executable,hlead,hget | ⟨q,⟨other,ho,hne,rfl⟩,hq⟩⟩ := h
  · obtain ⟨hlead',hsame⟩ := hs directory hu c hlead
    exact ⟨before,text,hf,c,executable,hlead',.inl (hsame.trans hget)⟩
  · exact ⟨before,text,hf,c,executable,(hs directory hu c hlead).1,
      .inr ⟨_,⟨other,ho,hne,rfl⟩,(hs other ho c hq).1⟩⟩

theorem told_nil (s : Settings) (used : Path → Prop) (hw : w.indexes = []) : Told s used [] w := by
  have hempty : ∀ directory, w.indexes.state directory = .empty := fun directory => by rw [hw]; rfl
  refine ⟨fun directory => ?_,fun directory baseName => ?_,fun directory => ?_,?_,
    fun directory => ?_,
    fun directory => ?_⟩
  · rw [hempty]; rfl
  · rw [hempty]; simp [State.empty]
  · rw [hempty]; exact List.nodup_nil
  · rw [hw]; exact List.nodup_nil
  · rw [hempty]; exact fun h => by cases h
  · rw [hempty]; exact fun h => absurd rfl h

namespace Told

theorem knows (h : Told s used calls w) (hk : Table.Knows directory state w.indexes w'.indexes)
    (hlocked : state.locked = false) (hnodup : state.entries.Nodup)
    (hentries : ∀ x, x ∈ state.entries ↔ (directory,x) ∈ calls')
    (hothers : ∀ other, other ≠ directory → ∀ x, (other,x) ∈ calls' ↔ (other,x) ∈ calls)
    (hearned : state.dirty = true → state.entries ≠ [])
    (hself : state.entries ≠ [] → state.dirty = false →
      HasIndex s used directory state.entries w'.disk)
    (hkeep : ∀ other entries, other ≠ directory → HasIndex s used other entries w.disk →
      HasIndex s used other entries w'.disk) : Told s used calls' w' := by
  refine ⟨fun other => ?_,fun other x => ?_,fun other => ?_,?_,fun other => ?_,fun other => ?_⟩
  · by_cases ho : other = directory
    · rw [ho,hk.self,hlocked]
    · rw [hk.others other ho,h.unlocked]
  · by_cases ho : other = directory
    · rw [ho,hk.self,hentries]
    · rw [hk.others other ho,h.entries,hothers other ho]
  · by_cases ho : other = directory
    · rw [ho,hk.self]; exact hnodup
    · rw [hk.others other ho]; exact h.nodup other
  · rw [hk.listed]
    split
    · exact h.listed
    · rename_i hnew
      exact List.nodup_append.2 ⟨h.listed,by simp,fun x hx y hy he => by
        rw [List.mem_singleton.1 hy] at he
        exact hnew (he ▸ hx)⟩
  · by_cases ho : other = directory
    · rw [ho,hk.self]; exact hearned
    · rw [hk.others other ho]; exact h.earned other
  · by_cases ho : other = directory
    · rw [ho,hk.self]; exact hself
    · rw [hk.others other ho]
      exact fun hne hd => hkeep other _ ho (h.stands other hne hd)

theorem register (h : Told s used calls w) (hu : used directory) {result : Except Fault Unit}
    (hr : run (Index.register s directory baseName) w = (result,w')) :
    Told s used (calls ++ [(directory,baseName)]) w' := by
  have hothers : ∀ other, other ≠ directory → ∀ x,
      (other,x) ∈ calls ++ [(directory,baseName)] ↔ (other,x) ∈ calls :=
        fun other ho x => by simp [ho]
  have hadded : baseName ∉ (w.indexes.state directory).entries →
      ((w.indexes.state directory).entries ++ [baseName]).Nodup ∧
        ∀ x, x ∈ (w.indexes.state directory).entries ++ [baseName] ↔
          (directory,x) ∈ calls ++ [(directory,baseName)] := fun hb => by
    refine ⟨List.nodup_append.2 ⟨h.nodup directory,by simp,fun x hx y hy he => ?_⟩,fun x => ?_⟩
    · rw [List.mem_singleton.1 hy] at he
      exact hb (he ▸ hx)
    · simp [h.entries directory x]
  cases registers_of_register (h.unlocked directory) hr with
  | repeated hb hdisk hk =>
    refine h.knows hk (h.unlocked _) (h.nodup _) (fun x => ?_) hothers (h.earned _)
      (hdisk ▸ h.stands directory)
      fun _ _ _ hi => hdisk ▸ hi
    rw [h.entries,List.mem_append,List.mem_singleton,Prod.mk.injEq]
    refine ⟨.inl,?_⟩
    rintro (hx | ⟨-,rfl⟩)
    · exact hx
    · exact (h.entries _ _).1 hb
  | kept hb hbatch hdisk hk =>
    obtain ⟨hnodup,hentries⟩ := hadded hb
    exact h.knows hk rfl hnodup hentries hothers (fun _ => by simp)
      (fun _ hd => by cases hd) fun _ _ _ hi => hdisk ▸ hi
  | written text hb hbatch hf hs hk =>
    obtain ⟨hnodup,hentries⟩ := hadded hb
    exact h.knows hk rfl hnodup hentries hothers (fun _ => by simp)
      (fun _ _ => ⟨w.disk,text,hf,.of_saved hs⟩)
      fun _ _ ho hi => hi.saved hu (Ne.symm ho) hs
  | unwritten fault hb hbatch hg hk =>
    obtain ⟨hnodup,hentries⟩ := hadded hb
    exact h.knows hk rfl hnodup hentries hothers (fun _ => by simp)
      (fun _ hd => by cases hd) fun _ _ _ hi => hi.grown hg

theorem flush (h : Told s used calls w) (hu : ∀ x ∈ calls, used x.1)
    {result : Except Fault (Option Path)}
    (hr : run (Index.flush s directory) w = (result,w')) : Told s used calls w' := by
  cases flushed_of_flush hr with
  | idle hdirty hdisk hk =>
    exact h.knows hk (h.unlocked _) (h.nodup _) (h.entries directory) (fun _ _ _ => Iff.rfl)
      (h.earned _) (hdisk ▸ h.stands directory) fun _ _ _ hi => hdisk ▸ hi
  | written text hdirty hf hs hk =>
    obtain ⟨x,hx⟩ := List.exists_mem_of_ne_nil _ (h.earned directory hdirty)
    exact h.knows hk (h.unlocked directory) (h.nodup directory) (h.entries directory)
      (fun _ _ _ => Iff.rfl)
      (fun _ => h.earned directory hdirty) (fun _ _ => ⟨w.disk,text,hf,.of_saved hs⟩)
        fun _ _ ho hi =>
      hi.saved (hu _ ((h.entries directory x).1 hx)) (Ne.symm ho) hs
  | unwritten fault hdirty hg hk =>
    exact h.knows hk (h.unlocked _) (h.nodup _) (h.entries directory)
      (fun _ _ _ => Iff.rfl) (h.earned _)
      (fun _ hd => by rw [hdirty] at hd; cases hd) fun _ _ _ hi => hi.grown hg

theorem flushAll (h : Told s used calls w) (hu : ∀ x ∈ calls, used x.1)
    {result : Except Fault (List Path)}
    (hr : run (Index.flushAll s) w = (result,w')) : Told s used calls w' := by
  have hall : ∀ (directories : List Path) (w : World), Told s used calls w →
      Told s used calls (run (directories.mapM (Index.flush s)) w).2 := by
    intro directories
    induction directories with
    | nil => exact fun _ h => h
    | cons first rest ih =>
      intro w h
      rw [List.mapM_cons,run_bind]
      cases hfirst : run (Index.flush s first) w with
      | mk path w₁ =>
        have h₁ := h.flush hu hfirst
        cases path with
        | error fault => exact h₁
        | ok path =>
          have h₂ := ih w₁ h₁
          simp only [run_bind]
          cases hrest : run (rest.mapM (Index.flush s)) w₁ with
          | mk paths w₂ =>
            rw [hrest] at h₂
            cases paths <;> exact h₂
  have hdone := hall w.indexes.directories w h
  rw [run_flushAll] at hr
  cases hm : run (w.indexes.directories.mapM (Index.flush s)) w with
  | mk paths w₁ =>
    rw [hm] at hr hdone
    cases paths <;> obtain ⟨-,rfl⟩ := Prod.mk.inj hr <;> exact hdone

theorem others (h : Told s used calls w) (hu : ∀ x ∈ calls, used x.1)
    (hs : Spares s used w.disk d) :
    Told s used calls { w with disk := d } := by
  refine ⟨h.unlocked,h.entries,h.nodup,h.listed,h.earned,fun directory hne hd => ?_⟩
  obtain ⟨x,hx⟩ := List.exists_mem_of_ne_nil _ hne
  exact (h.stands directory hne hd).spared (hu _ ((h.entries directory x).1 hx)) hs

end Told

theorem History.told (hw : w.indexes = []) (h : History s used w calls w') :
    (∀ x ∈ calls, used x.1) ∧ Told s used calls w' := by
  induction h with
  | start => exact ⟨by simp,told_nil s used hw⟩
  | register _ hu hr ih =>
    refine ⟨fun x hx => ?_,ih.2.register hu hr⟩
    rcases List.mem_append.1 hx with hx | hx
    · exact ih.1 x hx
    · rw [List.mem_singleton.1 hx]; exact hu
  | flush _ hr ih => exact ⟨ih.1,ih.2.flush ih.1 hr⟩
  | flushAll _ hr ih => exact ⟨ih.1,ih.2.flushAll ih.1 hr⟩
  | others _ hs ih => exact ⟨ih.1,ih.2.others ih.1 hs⟩

theorem Told.register_again (h : Told s used calls w) (hb : (directory,baseName) ∈ calls) :
    ∃ w', run (Index.register s directory baseName) w = (.ok (),w') ∧ w'.disk = w.disk ∧
      ∀ other, w'.indexes.state other = w.indexes.state other := by
  have hmem := (h.entries directory baseName).2 hb
  cases hr : run (Index.register s directory baseName) w with
  | mk result w' =>
    cases registers_of_register (h.unlocked directory) hr with
    | repeated _ hdisk hk =>
      refine ⟨w',rfl,hdisk,fun other => ?_⟩
      by_cases ho : other = directory
      · rw [ho,hk.self]
      · exact hk.others other ho
    | kept hn => exact absurd hmem hn
    | written _ hn => exact absurd hmem hn
    | unwritten _ hn => exact absurd hmem hn

theorem Told.register_failed (h : Told s used calls w) {fault : Fault}
    (hr : run (Index.register s directory baseName) w = (.error fault,w')) :
    baseName ∈ (w'.indexes.state directory).entries ∧
    (w'.indexes.state directory).dirty = true := by
  cases registers_of_register (h.unlocked directory) hr with
  | unwritten _ _ _ _ hk => rw [hk.self]; exact ⟨by simp,rfl⟩

theorem flushAll_clean {paths : List Path} (hr : run (flushAll s) w = (.ok paths,w')) :
    (∀ directory, (w'.indexes.state directory).dirty = false) ∧ ∃ dirty : List Path,
      dirty.Pairwise (Path.lessOrEqual · ·) ∧ dirty.Nodup ∧
      (∀ directory, directory ∈ dirty ↔ (w.indexes.state directory).dirty = true) ∧
      paths = dirty.map s.indexPath ∧
      ∃ texts, Saves texts w.disk w'.disk ∧ texts.map Prod.fst = paths := by
  rw [run_flushAll] at hr
  cases hm : run (w.indexes.directories.mapM (flush s)) w with
  | mk result w₁ =>
    rw [hm] at hr
    cases result with
    | error fault => cases hr
    | ok written =>
      obtain ⟨hpaths,rfl⟩ := Prod.mk.inj hr
      obtain rfl := Except.ok.inj hpaths
      obtain ⟨texts,hsaves,hwritten,htexts,hclean,hothers⟩ :=
        flushes_written (Path.nodup_sorted _) hm
      have hunlisted : ∀ directory, directory ∉ w.indexes.directories →
          (w.indexes.state directory).dirty = false := fun directory hd => by
        rw [Table.state,not_not.1 (Table.mem_directories.not.1 hd)]
        rfl
      refine ⟨fun directory => ?_,w.indexes.directories.filter fun directory =>
        (w.indexes.state directory).dirty,(Path.pairwise_sorted _).filter _,
          (Path.nodup_sorted _).filter _,
        fun directory => ?_,hwritten.trans htexts,texts,hsaves,hwritten.symm⟩
      · by_cases hd : directory ∈ w.indexes.directories
        · exact hclean directory hd
        · rw [hothers directory hd]; exact hunlisted directory hd
      · rw [List.mem_filter]
        refine ⟨fun h => h.2,fun h => ⟨by_contra fun hd => ?_,h⟩⟩
        rw [hunlisted directory hd] at h
        cases h

/-- After any calls, failed ones among them: entries are what was registered; an index that is not
dirty has them in its file, unless another index leads to that file; registering once more changes
no state; what failed is dirty; and a flush that goes through writes exactly the dirty indexes, and
leaves none. -/
theorem dirty_told (hw : w.indexes = []) (h : History s used w calls w') :
    (∀ directory, (w'.indexes.state directory).entries.Nodup ∧ ∀ baseName,
      baseName ∈ (w'.indexes.state directory).entries ↔ (directory,baseName) ∈ calls) ∧
    (∀ directory, (w'.indexes.state directory).entries ≠ [] →
      (w'.indexes.state directory).dirty = false →
      (∀ other, used other → other ≠ directory →
        ¬ OneFile w'.disk (s.indexPath directory) (s.indexPath other)) →
      ∃ before text, s.formatted before directory (w'.indexes.state directory).entries = .ok text ∧
        w'.disk.read (s.indexPath directory) = .ok (Text.encode text)) ∧
    (∀ directory baseName, (directory,baseName) ∈ calls →
      ∃ w'', run (register s directory baseName) w' = (.ok (),w'') ∧ w''.disk = w'.disk ∧
        ∀ other, w''.indexes.state other = w'.indexes.state other) ∧
    (∀ directory baseName fault w'', run (register s directory baseName) w' = (.error fault,w'') →
      baseName ∈ (w''.indexes.state directory).entries ∧
      (w''.indexes.state directory).dirty = true) ∧
    ∀ paths w'', run (flushAll s) w' = (.ok paths,w'') →
      (∀ directory, (w''.indexes.state directory).dirty = false) ∧ ∃ dirty : List Path,
        dirty.Pairwise (Path.lessOrEqual · ·) ∧ dirty.Nodup ∧
        (∀ directory, directory ∈ dirty ↔ (w'.indexes.state directory).dirty = true) ∧
        paths = dirty.map s.indexPath ∧
        ∃ texts, Saves texts w'.disk w''.disk ∧ texts.map Prod.fst = paths := by
  obtain ⟨-,htold⟩ := h.told hw
  refine ⟨fun directory => ⟨htold.nodup directory,htold.entries directory⟩,
    fun directory hne hd hapart => ?_,
    fun directory baseName hb => htold.register_again hb,
    fun directory baseName fault w'' hr => htold.register_failed hr,fun paths w'' hr =>
      flushAll_clean hr⟩
  obtain ⟨before,text,hf,hholds⟩ := htold.stands directory hne hd
  refine ⟨before,text,hf,hholds.read ?_⟩
  rintro q ⟨other,ho,hne,rfl⟩
  exact hapart other ho hne

end Told

/-- A directory stands where the index of `a` would have to be. -/
def blockedIndex : World where
  disk := { here := [], tree := ⟨[(["a"],.directory),(["a","index.ts"],.directory)]⟩ }
  indexes := []
  log := []

def clearedDisk : Disk := { here := [], tree := ⟨[(["a"],.directory)]⟩ }

def registered (directory baseName : String) (w : World) : World :=
  (run (register (plainSettings false) (.ofString directory) baseName) w).2

theorem History.registered {used : Path → Prop} {calls : List (Path × String)} {w w' : World}
    {directory : String} (h : History (plainSettings false) used w calls w')
    (hu : used (.ofString directory))
    (baseName : String) :
      History (plainSettings false) used w (calls ++ [(.ofString directory,baseName)])
      (Index.registered directory baseName w') := .register h hu rfl

def registeredAgain : World :=
  registered "a" "X" { registered "a" "X" blockedIndex with disk := clearedDisk }

def recovered : World := (run (flushAll (plainSettings false)) registeredAgain).2

theorem history_recovered :
    History (plainSettings false) (fun directory => directory = .ofString "a")
    blockedIndex [(.ofString "a","X"),(.ofString "a","X")] recovered := by
  have hblocked : (registered "a" "X" blockedIndex).disk.walk true
      ((plainSettings false).indexPath (.ofString "a")) =
        .ok (.entry ["a","index.ts"] .directory) := by decide
  have hfirst := @History.registered (fun directory => directory = .ofString "a")
    [] blockedIndex blockedIndex
    "a" .start rfl "X"
  have hspares : Spares (plainSettings false) (fun directory => directory = .ofString "a")
      (registered "a" "X" blockedIndex).disk clearedDisk := by
    rintro directory rfl c ⟨bytes,executable,hw⟩
    rw [hblocked] at hw
    cases hw
  exact .flushAll ((hfirst.others hspares).registered rfl "X") rfl

theorem dirty_told_recovered : (registeredAgain.indexes.state (.ofString "a")).dirty = true ∧
    (recovered.indexes.state (.ofString "a")).entries = ["X"] ∧
    ∃ before text, (plainSettings false).formatted before (.ofString "a") ["X"] = .ok text ∧
      recovered.disk.read ((plainSettings false).indexPath (.ofString "a")) =
        .ok (Text.encode text) := by
  have hstate : recovered.indexes.state (.ofString "a") = ⟨["X"],false,false⟩ := by decide +kernel
  have hentries : (recovered.indexes.state (.ofString "a")).entries = ["X"] := by rw [hstate]
  have hread := (dirty_told rfl history_recovered).2.1 (.ofString "a") (by rw [hentries]; simp)
    (by rw [hstate]) fun other ho hne => absurd ho hne
  rw [hentries] at hread
  exact ⟨by decide,hentries,hread⟩

/-- Two directories, two states, one file. -/
theorem clean_index_overwritten : ∃ calls w, History (plainSettings false)
      (fun directory => directory = .ofString "a" ∨ directory = .ofString "b") linkedIndex calls w ∧
    w.disk.walk true (.ofString "a") = .ok (.entry ["a"] .directory) ∧
    w.disk.walk true (.ofString "b") = .ok (.entry ["b"] .directory) ∧
    (w.indexes.state (.ofString "a")).entries = ["X"] ∧
    (w.indexes.state (.ofString "a")).dirty = false ∧
    ¬ ∃ before text, (plainSettings false).formatted before (.ofString "a") ["X"] = .ok text ∧
      w.disk.read ((plainSettings false).indexPath (.ofString "a")) = .ok (Text.encode text) := by
  refine ⟨_,_,
    (History.start.registered (.inl rfl) "X").registered (.inr rfl) "Y",by decide,by decide,
    by decide,by decide,?_⟩
  rintro ⟨before,text,hf,hread⟩
  obtain ⟨⟨nested,d,hrenders⟩,-⟩ := renders_of_formatted hf
  obtain rfl := Except.ok.inj hrenders
  have hlinked : (registered "b" "Y" (registered "a" "X" linkedIndex)).disk.read
      ((plainSettings false).indexPath (.ofString "a")) =
        .ok (Text.encode "export * from './Y';\n") := by
    decide +kernel
  rw [hlinked] at hread
  have hne :
      ∀ nested, Text.encode "export * from './Y';\n" ≠ Text.encode (textOf nested ["X"]) := by
    decide +kernel
  exact hne nested (Except.ok.inj hread)

end OperationHooks.Index
