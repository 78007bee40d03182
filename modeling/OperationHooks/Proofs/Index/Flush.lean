import OperationHooks.Proofs.Disk.Saving
import OperationHooks.Proofs.Effect
import OperationHooks.Proofs.Index.File
/-!
Bringing the indexes up to date at the end of a run: afterwards each index that has entries says
what its directory has registered, and nothing else on the disk has changed.
-/
set_option autoImplicit false

namespace OperationHooks.Index
open Effect Disk

/-- Index files when some directories may still have to be flushed. -/
structure Upkept (s : Settings) (base : Disk) (used : Path → Prop) (todo : List Path) (w : World) :
    Prop where
  stands : ∀ directory, (w.indexes.state directory).entries ≠ [] → used directory ∧
    (Stands s base w.disk directory (w.indexes.state directory).entries ∨
      directory ∈ todo ∧ (w.indexes.state directory).dirty = true)
  bare : ∀ directory, used directory → (w.indexes.state directory).entries = [] →
    w.disk.tree.get? (indexPlace s base directory) = base.tree.get? (indexPlace s base directory)
  form : ∀ directory, used directory →
    w.disk.tree.get? (indexPlace s base directory) = base.tree.get? (indexPlace s base directory) ∨
    ∃ bytes, w.disk.tree.get? (indexPlace s base directory) =
      some (stored (base.tree.get? (indexPlace s base directory)) bytes)
  earned : ∀ directory, (w.indexes.state directory).dirty = true →
    (w.indexes.state directory).entries ≠ []

structure Refreshed (s : Settings) (base : Disk) (used : Path → Prop) (w w' : World) : Prop where
  entries : ∀ directory, (w'.indexes.state directory).entries = (w.indexes.state directory).entries
  directories : ∀ directory, directory ∈ w'.indexes.directories ↔ directory ∈ w.indexes.directories
  elsewhere : ∀ q, (∀ directory, used directory → q ≠ indexPlace s base directory) →
    w'.disk.tree.get? q = w.disk.tree.get? q

namespace Refreshed

variable {s : Settings} {base : Disk} {used : Path → Prop} {w w' w'' : World}

theorem refl (w : World) : Refreshed s base used w w :=
  ⟨fun _ => rfl,fun _ => Iff.rfl,fun _ _ => rfl⟩

theorem trans (h : Refreshed s base used w w') (h' : Refreshed s base used w' w'') :
    Refreshed s base used w w'' :=
  ⟨fun directory => (h'.entries directory).trans (h.entries directory),
    fun directory => (h'.directories directory).trans (h.directories directory),
    fun q hq => (h'.elsewhere q hq).trans (h.elsewhere q hq)⟩

end Refreshed

section Flush

variable {s : Settings} {base : Disk} {used : Path → Prop} {directory : Path} {todo : List Path}
variable {w w' : World} {G : Place → Prop}

theorem run_flush (s : Settings) (directory : Path) (w : World) : run (flush s directory) w =
    if (w.indexes.state directory).dirty then
      match s.formatted w.disk directory (w.indexes.state directory).entries with
      | .error fault => (.error fault,{ w with indexes := w.indexes.enter directory })
      | .ok text =>
        match run (save (s.indexPath directory) text) w.disk with
        | (.error fault,disk) =>
          (.error fault,{ w with indexes := w.indexes.enter directory, disk })
        | (.ok (),disk) => (.ok (some (s.indexPath directory)),
            settled s directory { w with indexes := w.indexes.enter directory, disk })
    else (.ok none,{ w with indexes := w.indexes.enter directory }) := by
  unfold flush writeIndex
  simp only [run_bind,run_modify,run_get,Table.state_enter]
  split
  · simp only [run_bind,run_get,run_lift,Table.state_enter]
    cases s.formatted w.disk directory (w.indexes.state directory).entries with
    | error fault => rfl
    | ok text =>
      simp only [run_perform,run_set]
      cases hr : run (save (s.indexPath directory) text) w.disk with
      | mk r d => cases r <;> rfl
  · rfl

def rewritten (s : Settings) (directory : Path) (disk : Disk) (w : World) : World :=
  settled s directory { w with indexes := w.indexes.enter directory, disk }

theorem knows_rewritten (s : Settings) (directory : Path) (disk : Disk) (w : World) :
    Table.Knows directory { w.indexes.state directory with dirty := false } w.indexes
      (rewritten s directory disk w).indexes :=
  (Table.knows_modify w.indexes directory id).modify fun state => { state with dirty := false }

theorem flush_cases {path : Option Path} (h : run (flush s directory) w = (.ok path,w')) :
    (w.indexes.state directory).dirty = false ∧
    w' = { w with indexes := w.indexes.enter directory } ∨
    (w.indexes.state directory).dirty = true ∧ ∃ text disk,
      s.formatted w.disk directory (w.indexes.state directory).entries = .ok text ∧
      run (save (s.indexPath directory) text) w.disk = (.ok (),disk) ∧
      w' = rewritten s directory disk w := by
  rw [run_flush] at h
  by_cases hdirty : (w.indexes.state directory).dirty = true
  · rw [if_pos hdirty] at h
    cases hf : s.formatted w.disk directory (w.indexes.state directory).entries with
    | error fault => simp only [hf] at h; cases h
    | ok text =>
      simp only [hf] at h
      cases hs : run (save (s.indexPath directory) text) w.disk with
      | mk r disk =>
        rw [hs] at h
        cases r with
        | error fault => cases h
        | ok u =>
          obtain ⟨-,rfl⟩ := Prod.mk.inj h
          exact .inr ⟨hdirty,text,disk,rfl,hs,rfl⟩
  · rw [if_neg hdirty] at h
    obtain ⟨-,rfl⟩ := Prod.mk.inj h
    exact .inl ⟨Bool.eq_false_iff.2 hdirty,rfl⟩

theorem entries_rewritten (s : Settings) (directory : Path) (disk : Disk)
    (w : World) (other : Path) :
    ((rewritten s directory disk w).indexes.state other).entries =
      (w.indexes.state other).entries := by
  rw [rewritten,indexes_settled,Table.state_modify,Table.state_enter,Table.state_enter]
  split
  · rename_i he; rw [he]
  · rfl

theorem dirty_rewritten (s : Settings) (disk : Disk) (w : World) {other : Path}
    (h : other ≠ directory) :
    ((rewritten s directory disk w).indexes.state other).dirty = (w.indexes.state other).dirty := by
  rw [rewritten,indexes_settled,Table.state_modify_of_ne _ _ h,Table.state_enter]

/-- Only the index of one directory is written, and it now says what its entries say. -/
theorem Upkept.rewritten (g : Ground s base used) (hu : Upkept s base used (directory :: todo) w)
    {disk : Disk} (hused : used directory) (hentries : (w.indexes.state directory).entries ≠ [])
    (hother : ∀ q, q ≠ indexPlace s base directory → disk.tree.get? q = w.disk.tree.get? q)
    (hself : Stands s base disk directory (w.indexes.state directory).entries) :
    Upkept s base used todo (rewritten s directory disk w) := by
  have hdisk : (Index.rewritten s directory disk w).disk = disk := rfl
  have hkeep : ∀ other, used other → other ≠ directory →
      disk.tree.get? (indexPlace s base other) = w.disk.tree.get? (indexPlace s base other) :=
    fun other ho hne => hother _ (g.indexPlace_ne hused ho hne)
  refine ⟨fun other => ?_,fun other ho => ?_,fun other ho => ?_,fun other => ?_⟩
  · rw [entries_rewritten,hdisk]
    intro he
    obtain ⟨ho,hs⟩ := hu.stands other he
    refine ⟨ho,?_⟩
    by_cases hd : other = directory
    · subst hd; exact .inl hself
    · rw [dirty_rewritten s disk w hd]
      rcases hs with hs | ⟨hmem,hs⟩
      · exact .inl (hs.congr (hkeep other ho hd))
      · exact .inr ⟨(List.mem_cons.1 hmem).resolve_left hd,hs⟩
  · rw [entries_rewritten,hdisk]
    intro he
    have hd : other ≠ directory := by rintro rfl; exact hentries he
    exact (hkeep other ho hd).trans (hu.bare other ho he)
  · rw [hdisk]
    by_cases hd : other = directory
    · subst hd
      obtain ⟨-,text,-,he⟩ := hself
      exact .inr ⟨_,he⟩
    · rcases hu.form other ho with he | ⟨bytes,he⟩
      · exact .inl ((hkeep other ho hd).trans he)
      · exact .inr ⟨bytes,(hkeep other ho hd).trans he⟩
  · rw [entries_rewritten]
    by_cases hd : other = directory
    · subst hd; exact fun _ => hentries
    · rw [dirty_rewritten s disk w hd]; exact hu.earned other

theorem flush_ok (g : Ground s base used) (hu : Upkept s base used (directory :: todo) w)
    (ho : Overlaid G base w.disk)
    (hG : ∀ directory, used directory → G (indexPlace s base directory))
    (hd : directory ∈ w.indexes.directories) {path : Option Path}
    (h : run (flush s directory) w = (.ok path,w')) :
    Upkept s base used todo w' ∧ Overlaid G base w'.disk ∧ Refreshed s base used w w' := by
  have hlisted : ∀ other, other = directory ∨ other ∈ w.indexes.directories ↔
      other ∈ w.indexes.directories := fun other => ⟨fun ho => ho.elim (fun he => he ▸ hd) id,.inr⟩
  rw [run_flush] at h
  by_cases hdirty : (w.indexes.state directory).dirty = true
  · rw [if_pos hdirty] at h
    have hentries := hu.earned directory hdirty
    have hused := (hu.stands directory hentries).1
    cases hf : s.formatted w.disk directory (w.indexes.state directory).entries with
    | error fault => simp only [hf] at h; cases h
    | ok text =>
      simp only [hf] at h
      obtain ⟨hrenders,nested,hn⟩ := renders_of_formatted hf
      rcases g.save_index ho hused text with ⟨hcan,hs⟩ | ⟨-,fault,hs⟩ <;> simp only [hs] at h
      · obtain ⟨-,rfl⟩ := Prod.mk.inj h
        have hne : indexPlace s base directory ≠ [] := by simp [indexPlace]
        have hother : ∀ q, q ≠ indexPlace s base directory →
            (w.disk.putAt (indexPlace s base directory)
              (stored (w.disk.tree.get? (indexPlace s base directory))
                (Text.encode text))).tree.get? q =
            w.disk.tree.get? q :=
          fun q hq => Tree.get?_put_of_ne hne _ hq
        refine ⟨hu.rewritten g hused hentries hother ⟨⟨hcan,w.disk,nested,hn⟩,text,hrenders,?_⟩,?_,
          entries_rewritten s directory _ w,fun other => ?_,fun q hq => hother q (hq _ hused)⟩
        · rw [putAt,Tree.get?_put_self hne]
          rcases hu.form directory hused with he | ⟨bytes,he⟩ <;> rw [he]
          rfl
        · refine ho.put (hG _ hused) hne ?_ _ _
          rw [g.indexPath_eq] at hcan
          exact ((canWrite_childOf g.linkFree (g.there _ hused) g.fileName.2.1 g.fileName_up).1
            hcan).2.2
        · rw [indexes_settled,Table.mem_directories_modify,Table.enter,Table.mem_directories_modify,
            hlisted,hlisted]
      · cases h
  · rw [if_neg hdirty] at h
    obtain ⟨-,rfl⟩ := Prod.mk.inj h
    refine ⟨⟨fun other => ?_,fun other => ?_,hu.form,fun other => ?_⟩,ho,
      fun other => ?_,fun other => ?_,
      fun _ _ => rfl⟩ <;> try simp only [Table.state_enter]
    · intro he
      obtain ⟨hused,hs⟩ := hu.stands other he
      refine ⟨hused,hs.imp_right fun h => ⟨(List.mem_cons.1 h.1).resolve_left ?_,h.2⟩⟩
      rintro rfl
      exact hdirty h.2
    · exact hu.bare other
    · exact hu.earned other
    · exact Table.mem_directories_modify.trans (hlisted other)

theorem flush_total (g : Ground s base used) (hu : Upkept s base used todo w)
    (ho : Overlaid G base w.disk) (hf : Formats s)
    (hready : (w.indexes.state directory).entries ≠ [] → Ready s base directory) :
    ∃ path w', run (flush s directory) w = (.ok path,w') := by
  rw [run_flush]
  by_cases hdirty : (w.indexes.state directory).dirty = true
  · have hentries := hu.earned directory hdirty
    have hused := (hu.stands directory hentries).1
    obtain ⟨text,ht⟩ :=
      g.formatted_ok ho hused (hready hentries).2 hf (w.indexes.state directory).entries
    rw [if_pos hdirty,ht]
    rcases g.save_index ho hused text with ⟨-,hs⟩ | ⟨hcan,-⟩
    · simp only [hs]; exact ⟨_,_,rfl⟩
    · exact absurd (hready hentries).1 hcan
  · rw [if_neg hdirty]; exact ⟨_,_,rfl⟩

end Flush

section FlushAll

variable {s : Settings} {base : Disk} {used : Path → Prop} {directory : Path}
  {directories : List Path}
variable {w w' : World} {G : Place → Prop}

theorem flushes_ok (g : Ground s base used) (hu : Upkept s base used directories w)
    (ho : Overlaid G base w.disk)
    (hG : ∀ directory, used directory → G (indexPlace s base directory))
    (hd : ∀ directory ∈ directories, directory ∈ w.indexes.directories) {paths : List (Option Path)}
    (h : run (directories.mapM (flush s)) w = (.ok paths,w')) :
    Upkept s base used [] w' ∧ Overlaid G base w'.disk ∧ Refreshed s base used w w' := by
  induction directories generalizing w paths with
  | nil =>
    rw [List.mapM_nil] at h
    obtain ⟨-,rfl⟩ := Prod.mk.inj h
    exact ⟨hu,ho,.refl w⟩
  | cons directory rest ih =>
    rw [List.mapM_cons,bind_eq_ok] at h
    obtain ⟨path,w₁,hfirst,h⟩ := h
    obtain ⟨others,w₂,hrest,h⟩ := bind_eq_ok.1 h
    obtain ⟨-,rfl⟩ := Prod.mk.inj h
    obtain ⟨hu₁,ho₁,hr₁⟩ := flush_ok g hu ho hG (hd _ List.mem_cons_self) hfirst
    obtain ⟨hu₂,ho₂,hr₂⟩ := ih hu₁ ho₁
      (fun other hother => (hr₁.directories other).2 (hd other (List.mem_cons_of_mem _ hother)))
        hrest
    exact ⟨hu₂,ho₂,hr₁.trans hr₂⟩

theorem flushes_total (g : Ground s base used) (hu : Upkept s base used directories w)
    (ho : Overlaid G base w.disk)
    (hG : ∀ directory, used directory → G (indexPlace s base directory))
    (hd : ∀ directory ∈ directories, directory ∈ w.indexes.directories) (hf : Formats s)
    (hready : ∀ directory, (w.indexes.state directory).entries ≠ [] → Ready s base directory) :
    ∃ paths w', run (directories.mapM (flush s)) w = (.ok paths,w') := by
  induction directories generalizing w with
  | nil => exact ⟨[],w,rfl⟩
  | cons directory rest ih =>
    obtain ⟨path,w₁,hfirst⟩ := flush_total g hu ho hf (hready directory)
    obtain ⟨hu₁,ho₁,hr₁⟩ := flush_ok g hu ho hG (hd _ List.mem_cons_self) hfirst
    obtain ⟨paths,w₂,hrest⟩ := ih hu₁ ho₁
      (fun other hother => (hr₁.directories other).2 (hd other (List.mem_cons_of_mem _ hother)))
      (fun other hother => hready other (hr₁.entries other ▸ hother))
    refine ⟨path :: paths,w₂,?_⟩
    rw [List.mapM_cons,bind_eq_ok]
    exact ⟨path,w₁,hfirst,bind_eq_ok.2 ⟨paths,w₂,hrest,rfl⟩⟩

theorem run_flushAll (s : Settings) (w : World) : run (flushAll s) w =
    match run (w.indexes.directories.mapM (flush s)) w with
    | (.ok paths,w') => (.ok (paths.filterMap id),w')
    | (.error fault,w') => (.error fault,w') := by
  unfold flushAll
  simp only [run_bind,run_get]
  cases run (w.indexes.directories.mapM (flush s)) w with
  | mk r w' => cases r <;> rfl

theorem disk_of_flush {Inv : Disk → Prop} {path : Option Path}
    (hstep : ∀ text d d', Inv d → Saved (s.indexPath directory) text d d' → Inv d')
    (h : run (flush s directory) w = (.ok path,w')) (hw : Inv w.disk) :
    Inv w'.disk := by
  rcases flush_cases h with ⟨-,rfl⟩ | ⟨-,text,disk,-,hs,rfl⟩
  · exact hw
  · exact hstep text _ _ hw (saved_of_save hs)

theorem disk_of_flushAll {Inv : Disk → Prop} {paths : List Path}
    (hstep : ∀ directory ∈ w.indexes.directories, ∀ text d d', Inv d →
      Saved (s.indexPath directory) text d d' → Inv d')
    (h : run (flushAll s) w = (.ok paths,w')) (hw : Inv w.disk) : Inv w'.disk := by
  have hall : ∀ (directories : List Path) (w : World) {written : List (Option Path)},
      (∀ directory ∈ directories, ∀ text d d', Inv d →
        Saved (s.indexPath directory) text d d' → Inv d') →
      run (directories.mapM (flush s)) w = (.ok written,w') → Inv w.disk → Inv w'.disk := by
    intro directories
    induction directories with
    | nil =>
      intro w _ _ h hw
      rw [List.mapM_nil] at h
      obtain ⟨-,rfl⟩ := Prod.mk.inj h
      exact hw
    | cons first rest ih =>
      intro w _ hstep h hw
      rw [List.mapM_cons,bind_eq_ok] at h
      obtain ⟨path,w₁,hfirst,h⟩ := h
      obtain ⟨others,w₂,hrest,h⟩ := bind_eq_ok.1 h
      obtain ⟨-,rfl⟩ := Prod.mk.inj h
      obtain ⟨hfirst₁,hrest₁⟩ := List.forall_mem_cons.1 hstep
      exact ih w₁ hrest₁ hrest (disk_of_flush hfirst₁ hfirst hw)
  rw [run_flushAll] at h
  cases hr : run (w.indexes.directories.mapM (flush s)) w with
  | mk result w₁ =>
    rw [hr] at h
    cases result with
    | error fault => cases h
    | ok written =>
      obtain ⟨-,rfl⟩ := Prod.mk.inj h
      exact hall _ _ hstep hr hw

theorem run_flushAll_idle (s : Settings) {w : World}
    (h : ∀ directory, (w.indexes.state directory).dirty = false) :
    ∃ w', run (flushAll s) w = (.ok [],w') ∧ w'.disk = w.disk := by
  have hidle : ∀ (directories : List Path) (w : World),
      (∀ directory, (w.indexes.state directory).dirty = false) → ∃ paths w',
        run (directories.mapM (flush s)) w = (.ok paths,w') ∧ paths.filterMap id = [] ∧
        w'.disk = w.disk := by
    intro directories
    induction directories with
    | nil => intro w _; exact ⟨[],w,rfl,rfl,rfl⟩
    | cons first rest ih =>
      intro w h
      have hfirst :
          run (flush s first) w = (.ok none,{ w with indexes := w.indexes.enter first }) := by
        rw [run_flush,h]; rfl
      obtain ⟨paths,w',hrest,hnone,hdisk⟩ := ih { w with indexes := w.indexes.enter first }
        fun directory => by
        show ((w.indexes.enter first).state directory).dirty = false
        rw [Table.state_enter]; exact h directory
      refine ⟨none :: paths,w',?_,hnone,hdisk⟩
      rw [List.mapM_cons,bind_eq_ok]
      exact ⟨none,_,hfirst,bind_eq_ok.2 ⟨paths,w',hrest,rfl⟩⟩
  obtain ⟨paths,w',hrun,hnone,hdisk⟩ := hidle w.indexes.directories w h
  exact ⟨w',by rw [run_flushAll,hrun]; simp only [hnone],hdisk⟩

/-- What registrations have left, once all of them are over, is ready to be flushed. -/
theorem Filed.upkept {calls : Calls} (h : Filed s base used calls w) (hc : Coherent calls w.indexes)
    (hall : ∀ i c, calls i = some c → used c.directory)
    (hended : ∀ i c, calls i = some c → c.stage = .ended none) :
    Upkept s base used w.indexes.directories w := by
  refine ⟨fun directory hd => ?_,fun directory hu he => h.bare directory hu (.inr he),
    h.form,h.earned⟩
  obtain ⟨x,hx⟩ := List.exists_mem_of_ne_nil _ hd
  obtain ⟨i,c,hi,rfl,-,-⟩ := (hc.entries directory x).1 hx
  refine ⟨hall i c hi,?_⟩
  cases hb : s.batch with
  | true => exact .inr ⟨Table.mem_directories_of_entries hd,h.dirty hb _ hd⟩
  | false => exact .inl (h.stands hb _ hd fun j c' hj _ => by rw [hended j c' hj]; rfl)

end FlushAll

end OperationHooks.Index
