import OperationHooks.Proofs.Index.Modes

set_option autoImplicit false

namespace OperationHooks.Index
open Effect Disk

section Batch

variable {s : Settings} {directory : Path} {baseName : String} {calls before : List (Path × String)}
variable {w : World}

theorem register_total (hbatch : s.batch = true) (hl : (w.indexes.state directory).locked = false) :
    ∃ w', run (register s directory baseName) w = (.ok (),w') := by
  let held : World := w.modify directory fun state => { state with locked := true }
  have hlock : Stage.waiting.advance s directory baseName w = some (.adding,held) := by
    show (if (w.indexes.state directory).locked then none else some (Stage.adding,held)) = _
    rw [hl]
    rfl
  rw [run_register,maxSteps,proceed_of_advance hlock]
  cases hadd : (held.indexes.state directory).add? baseName with
  | none =>
    have hadding : Stage.adding.advance s directory baseName held =
        some (.releasing none,held.note .debug (repeatedMessage baseName directory)) := by
      rw [advance_adding rfl,hadd]
    rw [proceed_of_advance hadding,proceed_releasing]
    exact ⟨_,rfl⟩
  | some state =>
    have hadding : Stage.adding.advance s directory baseName held =
        some (.releasing none,held.modify directory fun _ => state) := by
      rw [advance_adding rfl,hadd]
      simp only [hbatch,if_true]
    rw [proceed_of_advance hadding,proceed_releasing]
    exact ⟨_,rfl⟩

theorem Recorded.registerAll_total (h : Recorded s before w.indexes) (hbatch : s.batch = true)
    (calls : List (Path × String)) : ∃ w', run (Index.registerAll s calls) w = (.ok (),w') := by
  induction calls generalizing before w with
  | nil => exact ⟨w,rfl⟩
  | cons first rest ih =>
    obtain ⟨w₁,hfirst⟩ : ∃ w₁, run (Index.register s first.1 first.2) w = (.ok (),w₁) :=
      register_total hbatch (h.unlocked first.1)
    obtain ⟨w₂,hrest⟩ := ih (h.register hfirst).1
    exact ⟨w₂,bind_eq_ok.2 ⟨(),w₁,hfirst,hrest⟩⟩

theorem registerAll_batch (hw : w.indexes = []) (hbatch : s.batch = true)
    (calls : List (Path × String)) :
    ∃ w', run (registerAll s calls) w = (.ok (),w') ∧ Recorded s calls w'.indexes ∧
    w'.disk = w.disk := by
  have hempty : Recorded s [] w.indexes := hw ▸ recorded_nil s
  obtain ⟨w',hr⟩ := hempty.registerAll_total hbatch calls
  obtain ⟨hrecorded,texts,hsaves,htexts⟩ := hempty.registerAll hr
  refine ⟨w',hr,hrecorded,?_⟩
  cases texts with
  | nil => exact hsaves.eq_of_nil
  | cons x rest =>
    have hnone := ((htexts x.1).1 List.mem_cons_self).1
    rw [hbatch] at hnone
    cases hnone

end Batch

section One

variable {s : Settings} {directory : Path} {baseNames : List String} {w : World} {d' : Disk}

def Indexed (s : Settings) (directory : Path) (entries : List String) (d d' : Disk) : Prop :=
  ∃ nested text, d.isFile (s.nestedIndex directory) = .ok nested ∧
    s.formatting d (textOf nested entries) = .ok text ∧
    run (save (s.indexPath directory) text) d = (.ok (),d')

theorem sorted_single (directory : Path) (hne : baseNames ≠ []) :
    Path.sorted ((baseNames.map fun baseName => (directory,baseName)).map Prod.fst) =
      [directory] := by
  have hall : (baseNames.map fun baseName => (directory,baseName)).map Prod.fst =
      List.replicate baseNames.length directory := by
    rw [List.map_map]
    exact List.map_const' ..
  have hdups : ∀ n, (List.replicate (n + 1) directory).eraseDups = [directory] := fun n => by
    rw [List.replicate_succ,List.eraseDups_cons,List.filter_eq_nil_iff.2 fun p hp => ?_]
    · rfl
    · simp [List.eq_of_mem_replicate hp]
  obtain ⟨n,hn⟩ := Nat.exists_eq_succ_of_ne_zero (mt List.length_eq_zero_iff.1 hne)
  rw [hall,hn,Path.sorted,hdups,List.mergeSort_singleton]

/-- Where everything is registered for one directory, in a batch, the run comes through if the index
can be written, and it writes nothing else. -/
theorem collect_one (hw : w.indexes = []) (hbatch : s.batch = true) (hne : baseNames ≠ [])
    (hnodup : baseNames.Nodup) :
    (∃ paths w', run (collect s (baseNames.map fun baseName => (directory,baseName))) w =
      (.ok paths,w') ∧
      w'.disk = d') ↔ Indexed s directory baseNames w.disk d' := by
  obtain ⟨w₁,hregister,hrecorded,hdisk⟩ :=
    registerAll_batch hw hbatch (baseNames.map fun baseName => (directory,baseName))
  have hentries :
      ∀ nested, textOf nested (w₁.indexes.state directory).entries = textOf nested baseNames :=
    textOf_congr ((List.perm_ext_iff_of_nodup (hrecorded.nodup directory) hnodup).2
      fun baseName => by
      rw [hrecorded.entries]
      simp)
  have hdirty : (w₁.indexes.state directory).dirty = true := by
    obtain ⟨first,hfirst⟩ := List.exists_mem_of_ne_nil _ hne
    exact (hrecorded.dirty directory).2 ⟨hbatch,List.ne_nil_of_mem
      ((hrecorded.entries directory first).2 (by simpa using hfirst))⟩
  have hflush : ∀ result w', run (flushAll s) w₁ = (result,w') ↔
      ∃ path w₂, run (flush s directory) w₁ = (path,w₂) ∧
      result = path.map Option.toList ∧ w' = w₂ := by
    intro result w'
    rw [run_flushAll,hrecorded.directories,sorted_single directory hne,List.mapM_cons,
      List.mapM_nil,run_bind]
    cases run (flush s directory) w₁ with
    | mk path w₂ =>
      cases path with
      | error fault => simp [Except.map,eq_comm,and_comm]
      | ok path =>
        simp only [run_bind,run_pure,Prod.mk.injEq]
        cases path <;> simp [Except.map,eq_comm]
  constructor
  · rintro ⟨paths,w',hr,rfl⟩
    obtain ⟨_,w₂,hr₂,hr⟩ := bind_eq_ok.1 hr
    obtain ⟨-,rfl⟩ := Prod.mk.inj (hr₂.symm.trans hregister)
    obtain ⟨path,w₃,hr,he,rfl⟩ := (hflush _ _).1 hr
    cases path with
    | error fault => cases he
    | ok path =>
      rcases flush_cases hr with ⟨hclean,-⟩ | ⟨-,text,disk,hf,hs,rfl⟩
      · rw [hdirty] at hclean
        cases hclean
      · rw [formatted_eq,hdisk] at hf
        rw [hdisk] at hs
        cases hn : w.disk.isFile (s.nestedIndex directory) with
        | error fault =>
          rw [hn] at hf
          cases hf
        | ok nested =>
          simp only [hn,hentries] at hf
          cases ht : s.formatting w.disk (textOf nested baseNames) with
          | error fault =>
            rw [ht] at hf
            cases hf
          | ok text' =>
            rw [ht] at hf
            obtain rfl := Except.ok.inj hf
            exact ⟨nested,text',hn,ht,hs⟩
  · rintro ⟨nested,text,hn,ht,hs⟩
    have hf : s.formatted w₁.disk directory (w₁.indexes.state directory).entries = .ok text := by
      rw [formatted_eq,hdisk,hn]
      simp only [hentries,ht]
      rfl
    have hr :
        run (flush s directory) w₁ =
        (.ok (some (s.indexPath directory)),rewritten s directory d' w₁) := by
      rw [run_flush,if_pos hdirty,hf]
      simp only [hdisk,hs]
      rfl
    exact ⟨_,_,bind_eq_ok.2 ⟨(),w₁,hregister,(hflush _ _).2 ⟨_,_,hr,rfl,rfl⟩⟩,rfl⟩

end One

end OperationHooks.Index
