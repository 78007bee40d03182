import OperationHooks.Proofs.Index.Text
import OperationHooks.Proofs.Run.Touching
/-!
Indexes never get ahead of modules. At every point of a run, also of one that fails later on, each
entry of an index stands for a module that was written, and each index that was saved lists such
entries.
-/
set_option autoImplicit false

namespace OperationHooks.Run
open Effect Disk Index Relation

def IsModuleText (s : Setup) (files : List Path) (x : Path × String) : Prop :=
  ∃ d before, d.sourcePath ∈ files ∧ d.IsNamed ∧ x.1 = s.hook.outputPath d ∧
  s.hook.Rendering before d x.2

/-- What stays of a module for one of some files when its text cannot be encoded. -/
def IsEmptied (s : Setup) (files : List Path) (x : Path × String) : Prop :=
  ∃ d before draft text, d.sourcePath ∈ files ∧ d.IsNamed ∧ x = (s.hook.outputPath d,"") ∧
    s.hook.draft before (Variant.select? d.kind d.hasVariables) d = .ok draft ∧
    draft.content.toText = .error text

def IsEmitted (s : Setup) (files : List Path) (x : Path × String) : Prop :=
  IsModuleText s files x ∨ IsEmptied s files x

def IsIndexText (s : Setup) (t : Table) (directory : Path) (x : Path × String) : Prop :=
  x.1 = s.index.indexPath directory ∧ ∃ names before, names ≠ [] ∧ names.Nodup ∧
    names ⊆ (t.state directory).entries ∧ s.index.formatted before directory names = .ok x.2

def moduleFor (s : Setup) (directory : Path) (baseName : String) : Path :=
  childOf directory (baseName ++ "." ++ s.hook.extension)

def IsBacked (s : Setup) (files : List Path) (texts : List (Path × String)) (directory : Path)
    (baseName : String) : Prop :=
  ∃ x ∈ texts, x.1 = moduleFor s directory baseName ∧ IsModuleText s files x

/-- What texts have been written by some point of a run, and what the indexes have of them. -/
structure Backed (s : Setup) (files : List Path) (base : Disk) (texts : List (Path × String))
    (v : Index.World) : Prop where
  written : Written texts base v.disk
  kinds : ∀ x ∈ texts, IsEmitted s files x ∨ ∃ directory, IsIndexText s v.indexes directory x
  entries : ∀ directory, ∀ baseName ∈ (v.indexes.state directory).entries,
    IsBacked s files texts directory baseName
  earned : ∀ directory, (v.indexes.state directory).dirty = true →
    (v.indexes.state directory).entries ≠ []
  nodup : ∀ directory, (v.indexes.state directory).entries.Nodup

section Backed

variable {s : Setup} {files : List Path} {base : Disk} {texts : List (Path × String)}
  {v v' : Index.World}
variable {t t' : Table} {directory : Path} {baseName : String} {x : Path × String}
  {st st' : Index.Stage}

theorem IsIndexText.more (h : IsIndexText s t directory x)
    (hmore : (t.state directory).entries ⊆ (t'.state directory).entries) :
      IsIndexText s t' directory x := by
  obtain ⟨hpath,names,before,hne,hnodup,hsub,hf⟩ := h
  exact ⟨hpath,names,before,hne,hnodup,fun n hn => hmore (hsub hn),hf⟩

theorem IsBacked.more (h : IsBacked s files texts directory baseName) (y : Path × String) :
    IsBacked s files (texts ++ [y]) directory baseName := by
  obtain ⟨x,hx,h⟩ := h
  exact ⟨x,List.mem_append_left _ hx,h⟩

theorem entries_of_moves (h : Moves s.index directory baseName v st st' v') (other : Path) :
    (v'.indexes.state other).entries = (v.indexes.state other).entries ∨
      other = directory ∧ baseName ∉ (v.indexes.state other).entries ∧
        (v'.indexes.state other).entries = (v.indexes.state other).entries ++ [baseName] := by
  cases h with
  | lock hl =>
    exact .inl (Table.entries_modify (fun state => { state with locked := true })
      (fun _ => rfl) _ _ _)
  | add hb =>
    by_cases ho : other = directory
    · subst ho
      exact .inr ⟨rfl,hb,by rw [World.indexes_modify,Table.state_modify_self]⟩
    · exact .inl (by rw [World.indexes_modify,Table.state_modify_of_ne _ _ ho])
  | settle =>
    exact .inl (Table.entries_modify (fun state => { state with dirty := false })
      (fun _ => rfl) _ _ _)
  | release fault =>
    exact .inl (Table.entries_modify (fun state => { state with locked := false })
      (fun _ => rfl) _ _ _)
  | _ => exact .inl rfl

theorem entries_subset_of_moves (h : Moves s.index directory baseName v st st' v') (other : Path) :
    (v.indexes.state other).entries ⊆ (v'.indexes.state other).entries := by
  rcases entries_of_moves h other with he | ⟨-,-,he⟩ <;> rw [he]
  · exact fun _ hx => hx
  · exact List.subset_append_left _ _

theorem dirty_of_moves (h : Moves s.index directory baseName v st st' v') (other : Path)
    (hd : (v'.indexes.state other).dirty = true) :
    (v.indexes.state other).dirty = true ∨ (v'.indexes.state other).entries ≠ [] := by
  cases h with
  | lock hl =>
    rw [World.indexes_modify,Table.dirty_modify (fun state => { state with locked := true })
      (fun _ => rfl)] at hd
    exact .inl hd
  | add hb =>
    by_cases ho : other = directory
    · subst ho
      exact .inr (by rw [World.indexes_modify,Table.state_modify_self]; simp)
    · rw [World.indexes_modify,Table.state_modify_of_ne _ _ ho] at hd
      exact .inl hd
  | settle =>
    rw [indexes_settled,Table.state_modify] at hd
    split at hd
    · cases hd
    · exact .inl hd
  | release fault =>
    rw [World.indexes_modify,Table.dirty_modify (fun state => { state with locked := false })
      (fun _ => rfl)] at hd
    exact .inl hd
  | _ => exact .inl hd

namespace Backed

theorem start (hw : v.indexes = []) : Backed s files v.disk [] v := by
  have hstate : ∀ directory, v.indexes.state directory = .empty := fun directory => by rw [hw]; rfl
  exact ⟨.refl _,by simp,fun directory b hb => (by rw [hstate] at hb; cases hb),
    fun directory hd => (by rw [hstate] at hd; cases hd),
    fun directory => by rw [hstate]; exact List.nodup_nil⟩

theorem grow (h : Backed s files base texts v) (hg : Changed Tree.Grown v.disk v'.disk)
    (hindexes : v'.indexes = v.indexes) : Backed s files base texts v' :=
  ⟨h.written.grow hg,hindexes ▸ h.kinds,hindexes ▸ h.entries,hindexes ▸ h.earned,hindexes ▸ h.nodup⟩

theorem save (h : Backed s files base texts v) (hs : Saved x.1 x.2 v.disk v'.disk)
    (hindexes : v'.indexes = v.indexes)
    (hx : IsEmitted s files x ∨ ∃ directory, IsIndexText s v.indexes directory x) :
    Backed s files base (texts ++ [x]) v' := by
  refine ⟨h.written.save hs,fun y hy => ?_,fun directory b hb => ?_,hindexes ▸ h.earned,
    hindexes ▸ h.nodup⟩
  · rw [hindexes]
    rcases List.mem_append.1 hy with hy | hy
    · exact h.kinds y hy
    · rw [List.mem_singleton.1 hy]
      exact hx
  · rw [hindexes] at hb
    exact (h.entries directory b hb).more x

theorem moves (h : Backed s files base texts v) (hm : Moves s.index directory baseName v st st' v')
    (hdisk : v'.disk = v.disk) (hb : IsBacked s files texts directory baseName) :
    Backed s files base texts v' := by
  refine ⟨hdisk ▸ h.written,fun x hx => ?_,fun other b hother => ?_,
    fun other hd => ?_,fun other => ?_⟩
  · exact (h.kinds x hx).imp_right fun ⟨other,ho⟩ =>
      ⟨other,ho.more (entries_subset_of_moves hm other)⟩
  · rcases entries_of_moves hm other with he | ⟨rfl,-,he⟩ <;> rw [he] at hother
    · exact h.entries other b hother
    · rcases List.mem_append.1 hother with hother | hother
      · exact h.entries other b hother
      · rw [List.mem_singleton.1 hother]
        exact hb
  · rcases dirty_of_moves hm other hd with hd | he
    · have hsub := entries_subset_of_moves hm other
      intro hnone
      rw [hnone] at hsub
      exact h.earned other hd (List.subset_nil.1 hsub)
    · exact he
  · rcases entries_of_moves hm other with he | ⟨-,hnew,he⟩ <;> rw [he]
    · exact h.nodup other
    · exact List.nodup_append.2 ⟨h.nodup other,List.nodup_singleton _,by
        rintro b hb b' hb' rfl
        exact hnew (List.mem_singleton.1 hb' ▸ hb)⟩

end Backed

end Backed

structure Underway (s : Setup) (files : List Path) (base : Disk) (texts : List (Path × String))
    (p : Progress) : Prop where
  backed : Backed s files base texts p.world.toWorld
  made : ∀ t ∈ p.tasks, ∀ m st, t.stage = .registering m st →
    IsBacked s files texts m.path.parent m.baseName
  added : ∀ t ∈ p.tasks, ∀ m, t.stage = .registering m .rendering →
    (p.world.indexes.state m.path.parent).entries ≠ []
  storing : ∀ t ∈ p.tasks, ∀ m text, t.stage = .registering m (.storing text) →
    IsIndexText s p.world.indexes m.path.parent (s.index.indexPath m.path.parent,text)
  batch : s.index.batch = true → (∀ x ∈ texts, IsEmitted s files x) ∧
    ∀ t ∈ p.tasks, ∀ m st, t.stage = .registering m st → st.isWriting = false

section Underway

variable {o : HookOptions} {g : HookGenerator} {s : Setup} {files : List Path} {base : Disk}
variable {texts : List (Path × String)} {p : Progress} {t : Task} {i : Nat}
  {w : World} {stage : Stage}
variable {fault : Option Fault} {m : Hook.Module} {st st' : Index.Stage}
  {v : Index.World} {q : Path}

theorem changed_of_unemitted {d : Descriptor} {disk disk' : Disk} {fault : Fault}
    (hd : d.sourcePath ∈ files) (hn : d.IsNamed)
    (h : run (s.hook.emit (Variant.select? d.kind d.hasVariables) d) disk = (.error fault,disk')) :
    Changed Tree.Grown disk disk' ∨ ∃ x, IsEmptied s files x ∧ Saved x.1 x.2 disk disk' := by
  cases Hook.Settings.emission_of_emit h with
  | undrafted fault hdraft => exact .inl ⟨rfl,.refl _⟩
  | unformatted m cause hr hf => exact .inl ⟨rfl,.refl _⟩
  | halved draft text cause hdraft ht hf => exact .inl ⟨rfl,.refl _⟩
  | unsaved draft text fault disk' hdraft hs => exact .inl (grown_of_unsaved hs)
  | emptied draft text e disk' hdraft ht hf hs =>
    rw [(Hook.Settings.path_of_draft hdraft).1] at hs
    exact .inr ⟨_,⟨d,disk,draft,text,hd,hn,rfl,hdraft,ht⟩,saved_of_save hs⟩

theorem moduleFor_eq (hx : ∃ e : Extension, s.hook.extension = e.text)
    (hm : IsModulePath s files q) :
    moduleFor s q.parent q.stem = q := by
  obtain ⟨d,-,hn,rfl⟩ := hm
  exact (Hook.Settings.outputPath_eq_stem hx hn).symm

namespace Underway

theorem start {listed : List Path} (hw : w.indexes = []) :
    Underway s files w.disk [] (.start listed w) := by
  refine ⟨.start hw,fun t ht m st hs => ?_,fun t ht m hs => ?_,fun t ht m text hs => ?_,
    fun _ => ⟨by simp,fun t ht m st hs => ?_⟩⟩
  all_goals
    obtain ⟨path,-,rfl⟩ := List.mem_map.1 ht
    cases hs

/-- What is asked of the tasks when one has taken a step that may have written a text. -/
theorem set (h : Underway s files base texts p) {more : List (Path × String)}
    (hbacked : Backed s files base (texts ++ more) w.toWorld)
    (hsub : ∀ directory,
      (p.world.indexes.state directory).entries ⊆ (w.indexes.state directory).entries)
    (hmade : ∀ m st, stage = .registering m st →
      IsBacked s files (texts ++ more) m.path.parent m.baseName)
    (hadded : ∀ m, stage = .registering m .rendering → (w.indexes.state m.path.parent).entries ≠ [])
    (hstoring : ∀ m text, stage = .registering m (.storing text) →
      IsIndexText s w.indexes m.path.parent (s.index.indexPath m.path.parent,text))
    (hbatch : s.index.batch = true → (∀ x ∈ more, IsEmitted s files x) ∧
      ∀ m st, stage = .registering m st → st.isWriting = false) :
    Underway s files base (texts ++ more) ⟨p.tasks.set i ⟨t.path,stage⟩,w,fault⟩ := by
  refine ⟨hbacked,fun u hu m st hs => ?_,fun u hu m hs => ?_,fun u hu m text hs => ?_,
    fun hb => ⟨fun x hx => ?_,fun u hu m st hs => ?_⟩⟩
  · rcases List.mem_or_eq_of_mem_set hu with hu | rfl
    · obtain ⟨x,hx,hmodule⟩ := h.made u hu m st hs
      exact ⟨x,List.mem_append_left _ hx,hmodule⟩
    · exact hmade m st hs
  · rcases List.mem_or_eq_of_mem_set hu with hu | rfl
    · intro hnone
      have hold := hsub m.path.parent
      rw [show (w.indexes.state m.path.parent).entries = [] from hnone] at hold
      exact h.added u hu m hs (List.subset_nil.1 hold)
    · exact hadded m hs
  · rcases List.mem_or_eq_of_mem_set hu with hu | rfl
    · exact (h.storing u hu m text hs).more (hsub _)
    · exact hstoring m text hs
  · exact (List.mem_append.1 hx).elim ((h.batch hb).1 x) ((hbatch hb).1 x)
  · rcases List.mem_or_eq_of_mem_set hu with hu | rfl
    · exact (h.batch hb).2 u hu m st hs
    · exact (hbatch hb).2 m st hs

theorem aside (h : Underway s files base texts p) (hg : Changed Tree.Grown p.world.disk w.disk)
    (hindexes : w.indexes = p.world.indexes) (hr : ∀ m st, stage ≠ .registering m st) :
    ∃ more, Underway s files base (texts ++ more) ⟨p.tasks.set i ⟨t.path,stage⟩,w,fault⟩ :=
  ⟨[],h.set (by simpa using h.backed.grow hg hindexes)
    (fun _ => by rw [hindexes]; exact fun _ hx => hx)
    (fun m st hs => absurd hs (hr m st)) (fun m hs => absurd hs (hr m _))
    (fun m text hs => absurd hs (hr m _)) fun _ => ⟨by simp,fun m st hs => absurd hs (hr m st)⟩⟩

theorem empty (h : Underway s files base texts p) {x : Path × String} (hx : IsEmptied s files x)
    (hs : Saved x.1 x.2 p.world.disk w.disk) (hindexes : w.indexes = p.world.indexes)
    (hr : ∀ m st, stage ≠ .registering m st) :
    ∃ more, Underway s files base (texts ++ more) ⟨p.tasks.set i ⟨t.path,stage⟩,w,fault⟩ :=
  ⟨[x],h.set (h.backed.save hs hindexes (.inl (.inr hx)))
    (fun _ => by rw [hindexes]; exact fun _ hx => hx)
    (fun m st hs => absurd hs (hr m st)) (fun m hs => absurd hs (hr m _))
    (fun m text hs => absurd hs (hr m _)) fun _ =>
      ⟨fun y hy => .inr (List.mem_singleton.1 hy ▸ hx),fun m st hs => absurd hs (hr m st)⟩⟩

theorem emit (h : Underway s files base texts p) {d : Descriptor}
    (hd : d.sourcePath ∈ files) (hn : d.IsNamed)
    (hx : ∃ e : Extension, s.hook.extension = e.text)
    (hr : run (s.hook.emit (Variant.select? d.kind d.hasVariables) d) p.world.disk = (.ok m,w.disk))
    (hindexes : w.indexes = p.world.indexes) : ∃ more, Underway s files base (texts ++ more)
      ⟨p.tasks.set i ⟨t.path,.registering m .waiting⟩,w,fault⟩ := by
  obtain ⟨hpath,text,hrender,hsave⟩ := Hook.Settings.emit_ok hr
  have hmodule : IsModuleText s files (s.hook.outputPath d,text) := ⟨d,_,hd,hn,rfl,hrender⟩
  refine ⟨[(s.hook.outputPath d,text)],h.set ?_ (fun _ => by rw [hindexes]; exact fun _ hx => hx)
    (fun m' st hs => ?_) (fun m hs => by cases hs) (fun m text hs => by cases hs)
    fun _ => ⟨fun y hy => .inl (List.mem_singleton.1 hy ▸ hmodule),fun m st hs => by cases hs; rfl⟩⟩
  · exact h.backed.save (x := (s.hook.outputPath d,text)) (saved_of_save hsave) hindexes
      (.inl (.inl hmodule))
  · obtain ⟨rfl,-⟩ := Stage.registering.inj hs
    refine ⟨_,List.mem_append_right _ (List.mem_singleton_self _),?_,hmodule⟩
    rw [Hook.Module.baseName,moduleFor_eq hx ⟨d,hd,hn,hpath⟩]
    exact hpath.symm

theorem register (h : Underway s files base texts p) (ht : t ∈ p.tasks)
    (hs : t.stage = .registering m st)
    (hm : Moves s.index m.path.parent m.baseName p.world.toWorld st st' v) :
    ∃ more, Underway s files base (texts ++ more)
      ⟨p.tasks.set i ⟨t.path,.registering m st'⟩,{ p.world with toWorld := v },fault⟩ := by
  have hmade := h.made t ht m st hs
  have hsub := entries_subset_of_moves hm
  have hwriting : s.index.batch = true → st.isWriting = false :=
    fun hb => (h.batch hb).2 t ht m st hs
  -- Only the two steps that save an index do anything to the disk.
  have hstill :
      v.disk = p.world.disk → (st' = .rendering → (v.indexes.state m.path.parent).entries ≠ []) →
      (∀ text, st' = .storing text →
        IsIndexText s v.indexes m.path.parent (s.index.indexPath m.path.parent,text)) →
      (s.index.batch = true → st'.isWriting = false) → Underway s files base (texts ++ [])
        ⟨p.tasks.set i ⟨t.path,.registering m st'⟩,{ p.world with toWorld := v },fault⟩ := by
    intro hdisk hadded hstoring hbatch
    refine h.set (by simpa using h.backed.moves hm hdisk hmade) hsub
      (fun m' st'' he => ?_) (fun m' he => ?_)
      (fun m' text he => ?_) fun hb => ⟨by simp,fun m' st'' he => ?_⟩ <;>
      obtain ⟨rfl,rfl⟩ := Stage.registering.inj he
    · simpa using hmade
    · exact hadded rfl
    · exact hstoring _ rfl
    · exact hbatch hb
  cases hm with
  | render text hr =>
    refine ⟨[],hstill rfl (by simp) (fun text' he => ?_) fun hb => by cases hwriting hb⟩
    obtain rfl := Stage.storing.inj he
    exact ⟨rfl,_,_,h.added t ht m hs,h.backed.nodup _,fun _ hx => hx,hr⟩
  | add hb =>
    refine ⟨[],hstill rfl (fun _ => ?_) (fun text he => ?_) fun hb => by rw [hb]; rfl⟩
    · rw [World.indexes_modify,Table.state_modify_self]
      simp
    · split at he <;> cases he
  | store text disk hr =>
    have hindex := h.storing t ht m text hs
    refine ⟨[(s.index.indexPath m.path.parent,text)],
      h.set ?_ hsub (fun m' st'' he => ?_) (fun m' he => by cases he)
      (fun m' text he => by cases he) fun hb => by cases hwriting hb⟩
    · exact h.backed.save (x := (s.index.indexPath m.path.parent,text)) (saved_of_save hr) rfl
        (.inr ⟨_,hindex⟩)
    · obtain ⟨rfl,rfl⟩ := Stage.registering.inj he
      exact hmade.more _
  | unstored text cause disk hr =>
    have hgrown : Backed s files base texts { p.world.toWorld with disk } :=
      h.backed.grow (grown_of_unsaved hr) rfl
    refine ⟨[],h.set ?_ hsub (fun m' st'' he => ?_) (fun m' he => by cases he)
      (fun m' text he => by cases he)
      fun hb => by cases hwriting hb⟩
    · rwa [List.append_nil]
    · obtain ⟨rfl,rfl⟩ := Stage.registering.inj he
      simpa using hmade
  | lock hl => exact ⟨[],hstill rfl (by simp) (by simp) fun _ => rfl⟩
  | repeated message hb => exact ⟨[],hstill rfl (by simp) (by simp) fun _ => rfl⟩
  | unrendered cause hr => exact ⟨[],hstill rfl (by simp) (by simp) fun _ => rfl⟩
  | settle => exact ⟨[],hstill rfl (by simp) (by simp) fun _ => rfl⟩
  | release cause => exact ⟨[],hstill rfl (by simp) (by simp) fun _ => rfl⟩

theorem step (h : Underway s files base texts p) (ha : Aimed s files p)
    (hx : ∃ e : Extension, s.hook.extension = e.text) (i : Nat) :
    ∃ more, Underway s files base (texts ++ more) (p.step s i) := by
  rcases step_cases s p i with ⟨hs,-⟩ | ⟨t,stage,w,hi,hadvance,hs⟩ <;> rw [hs]
  · exact ⟨[],by rwa [List.append_nil]⟩
  · have hmem := List.mem_of_getElem? hi
    have haims := ha.aims t hmem
    have hadvances :=
      advances_of_advance (fun d hd => by rw [hd] at haims; exact haims.2.2) hadvance
    have hindexes : (∀ m st, t.stage ≠ .registering m st) → w.indexes = p.world.indexes :=
      fun hr => indexes_of_advance hr hadvance
    have hsame : ∀ {w : World}, w.disk = p.world.disk → Changed Tree.Grown p.world.disk w.disk :=
      fun hd => ⟨by rw [hd],by rw [hd]; exact .refl _⟩
    generalize hstage : t.stage = stage₀ at hadvances hindexes haims
    cases hadvances with
    | read w hq =>
      refine h.aside (hsame hq.disk) hq.indexes fun m st he => ?_
      rcases opened_cases s p.world.disk t.path with ⟨entry,ho⟩ | ⟨d,ho⟩ | ⟨fault,ho⟩ <;>
        rw [ho] at he <;> cases he
    | emit d m w hr hw hreport => exact h.emit haims.1 haims.2.1 hx hr hw
    | unsupported d w hv hq => exact h.aside (hsame hq.disk) hq.indexes (by simp)
    | unemitted d cause w hv hr =>
      rcases changed_of_unemitted haims.1 haims.2.1 hr with hg | ⟨x,hempty,hs⟩
      · exact h.aside hg (hindexes (by simp)) (by simp)
      · exact h.empty hempty hs (hindexes (by simp)) (by simp)
    | register m st st' inner hm => exact h.register hmem hstage hm
    | registered m => exact h.aside (hsame rfl) rfl (by simp)
    | unregistered m cause => exact h.aside (hsame rfl) rfl (by simp)
    | report entry =>
      exact h.aside (w := { p.world with report := entry.add p.world.report })
        (hsame rfl) rfl (by simp)

/-- Along every schedule texts are only added to those that were written. -/
theorem follow (h : Underway s files base texts p) (ha : Aimed s files p)
    (hx : ∃ e : Extension, s.hook.extension = e.text) (schedule : List Nat) :
    ∃ more, Underway s files base (texts ++ more) (p.follow s schedule) := by
  induction schedule generalizing p texts with
  | nil => exact ⟨[],by rw [List.append_nil]; exact h⟩
  | cons i rest ih =>
    obtain ⟨first,hstep⟩ := h.step ha hx i
    obtain ⟨more,hrest⟩ := ih hstep (ha.step i).1
    exact ⟨first ++ more,by rw [← List.append_assoc]; exact hrest⟩

end Underway

end Underway

section Flush

variable {s : Setup} {files directories : List Path} {base : Disk} {texts : List (Path × String)}
variable {v v' : Index.World} {directory : Path}

theorem Backed.retable (h : Backed s files base texts v) (hdisk : v'.disk = v.disk)
    (hentries : ∀ other, (v'.indexes.state other).entries = (v.indexes.state other).entries)
    (hdirty : ∀ other, (v'.indexes.state other).dirty = true →
      (v.indexes.state other).dirty = true) :
    Backed s files base texts v' := by
  refine ⟨hdisk ▸ h.written,fun x hx => ?_,fun other b hb => ?_,fun other hd => ?_,
    fun other => hentries other ▸ h.nodup other⟩
  · exact (h.kinds x hx).imp_right fun ⟨other,ho⟩ =>
      ⟨other,ho.more (hentries other ▸ fun _ hx => hx)⟩
  · rw [hentries] at hb
    exact h.entries other b hb
  · rw [hentries]
    exact h.earned other (hdirty other hd)

theorem Backed.flush (h : Backed s files base texts v) {r : Except Fault (Option Path)}
    (hr : run (Index.flush s.index directory) v = (r,v')) :
      ∃ more, Backed s files base (texts ++ more) v' := by
  have henter : ∀ disk, Changed Tree.Grown v.disk disk →
      Backed s files base (texts ++ []) { v with indexes := v.indexes.enter directory, disk } :=
        fun disk hg => by
    rw [List.append_nil]
    have hgrown : Backed s files base texts { v with disk } := h.grow hg rfl
    exact hgrown.retable rfl (fun other => by rw [Table.state_enter]) fun other hd => by
      rwa [Table.state_enter] at hd
  have hsame : Changed Tree.Grown v.disk v.disk := ⟨rfl,.refl _⟩
  rw [run_flush] at hr
  split at hr
  · rename_i hdirty
    split at hr
    · obtain ⟨-,rfl⟩ := Prod.mk.inj hr
      exact ⟨[],henter v.disk hsame⟩
    · rename_i text hf
      split at hr
      · rename_i hs
        obtain ⟨-,rfl⟩ := Prod.mk.inj hr
        exact ⟨[],henter _ (grown_of_unsaved hs)⟩
      · rename_i disk hs
        obtain ⟨-,rfl⟩ := Prod.mk.inj hr
        have hindex : IsIndexText s v.indexes directory (s.index.indexPath directory,text) :=
          ⟨rfl,_,_,h.earned directory hdirty,h.nodup directory,fun _ hx => hx,hf⟩
        have hsaved :
            Backed s files base (texts ++ [(s.index.indexPath directory,text)]) { v with disk } :=
          h.save (x := (s.index.indexPath directory,text)) (saved_of_save hs) rfl
            (.inr ⟨_,hindex⟩)
        have hrewritten : Backed s files base (texts ++ [(s.index.indexPath directory,text)])
            (rewritten s.index directory disk v) := by
          refine hsaved.retable rfl (entries_rewritten s.index directory disk v) fun other hd => ?_
          rw [rewritten,indexes_settled,Table.state_modify] at hd
          split at hd
          · cases hd
          · rwa [Table.state_enter] at hd
        exact ⟨_,hrewritten⟩
  · obtain ⟨-,rfl⟩ := Prod.mk.inj hr
    exact ⟨[],henter v.disk hsame⟩

theorem Backed.flushes (h : Backed s files base texts v) {r : Except Fault (List (Option Path))}
    (hr : run (directories.mapM (Index.flush s.index)) v = (r,v')) :
    ∃ more, Backed s files base (texts ++ more) v' := by
  induction directories generalizing v texts r with
  | nil =>
    rw [List.mapM_nil] at hr
    obtain ⟨-,rfl⟩ := Prod.mk.inj hr
    exact ⟨[],by rwa [List.append_nil]⟩
  | cons first rest ih =>
    rw [List.mapM_cons,run_bind] at hr
    split at hr
    · rename_i hflush
      obtain ⟨more,hfirst⟩ := h.flush hflush
      rw [run_bind] at hr
      split at hr <;> rename_i hothers <;> obtain ⟨-,rfl⟩ := Prod.mk.inj hr <;>
        obtain ⟨others,hrest⟩ := ih hfirst hothers <;>
        exact ⟨more ++ others,by rw [← List.append_assoc]; exact hrest⟩
    · rename_i hflush
      obtain ⟨-,rfl⟩ := Prod.mk.inj hr
      exact h.flush hflush

end Flush

/-- The points of a run on some files from when its directories have been made anew: while tasks are
carried out, and from when all are finished, while the indexes of one directory after the other are
flushed. -/
inductive Point (g : HookGenerator) (files : List Path) (w : World) :
    Bool → Index.World → Prop where
  | processing (steps : List Nat) :
      Point g files w false ((Progress.start files w).follow g.setup steps).world.toWorld
  | finalizing (steps : List Nat) (directories rest : List Path) (p : Progress)
      (r : Except Fault (List (Option Path))) (v : Index.World) :
      p = (Progress.start files w).follow g.setup steps → p.fault = none → p.isFinished = true →
      p.world.indexes.directories = directories ++ rest →
      run (directories.mapM (flush g.setup.index)) (p.world.entered .finalizing).toWorld = (r,v) →
      Point g files w true v

section Point

variable {o : HookOptions} {g : HookGenerator} {files listed : List Path}
  {w w' : World} {flushing : Bool}
variable {v : Index.World} {schedule : Schedule} {directory other q : Path}
  {texts : List (Path × String)}

theorem backed_of_point (hx : ∃ e : Extension, g.setup.hook.extension = e.text)
    (hm : ∀ p ∈ listed, p ∈ files) (hw : w.indexes = []) (h : Point g listed w flushing v) :
    ∃ texts, Backed g.setup files w.disk texts v ∧
      (g.setup.index.batch = true → flushing = false → ∀ x ∈ texts, IsEmitted g.setup files x) := by
  have hstart : Aimed g.setup files (.start listed w) := .start hm hw
  have hunder : Underway g.setup files w.disk [] (.start listed w) := .start hw
  have hfollow := fun steps => hunder.follow hstart hx steps
  cases h with
  | processing steps =>
    obtain ⟨texts,hunder⟩ := hfollow steps
    exact ⟨_,hunder.backed,fun hb _ => (hunder.batch hb).1⟩
  | finalizing steps directories rest p r v hp hfault hfinished hdirectories hr =>
    subst hp
    obtain ⟨texts,hunder⟩ := hfollow steps
    have hentered : Backed g.setup files w.disk _
        (((Progress.start listed w).follow g.setup steps).world.entered .finalizing).toWorld :=
      hunder.backed.retable rfl (fun _ => rfl) fun _ hd => hd
    obtain ⟨more,hbacked⟩ := hentered.flushes hr
    exact ⟨_,hbacked,fun _ hover => by cases hover⟩

theorem indexPath_injective (hg : g.Follows o)
    (h : g.setup.index.indexPath directory = g.setup.index.indexPath other) :
      directory = other := by
  have hpart := (isPart_indexName hg).1
  rw [Settings.indexPath,Settings.indexPath,div_part _ hpart,div_part _ hpart] at h
  rw [← parent_childOf directory g.setup.index.fileName,h,parent_childOf]

theorem indexPath_ne (hg : g.Follows o) (hx : ∃ e : Extension, g.setup.hook.extension = e.text)
    {x : Path × String} (h : IsEmitted g.setup files x) :
      x.1 ≠ g.setup.index.indexPath directory := by
  obtain ⟨d,hn,hpath⟩ : ∃ d : Descriptor, d.IsNamed ∧ x.1 = g.setup.hook.outputPath d := by
    rcases h with ⟨d,-,-,hn,hpath,-⟩ | ⟨d,-,-,-,-,hn,rfl,-⟩
    · exact ⟨d,hn,hpath⟩
    · exact ⟨d,hn,rfl⟩
  obtain ⟨folder,name,hchild,-,-,hname⟩ := Hook.Settings.outputPath_eq_childOf hx hn
  intro he
  have hpart := (isPart_indexName hg).1
  rw [hpath,hchild,Settings.indexPath,div_part _ hpart] at he
  have hsame : name = g.setup.index.fileName := by
    have hlast := congrArg (fun p : Path => p.parts.getLast?) he
    simpa [childOf] using hlast
  refine hname (hsame.trans ?_)
  obtain ⟨formatting,broken,templates,rfl⟩ := hg
  rfl

/-- At every point of a run, texts have been written of which each is at the path of a module, or is
that of an index, made of a set of the entries that this has. The module for each entry is among
them, and its file is there. An index that was saved says what a set of its entries was rendered to,
as far as no other path that was written to leads to the same file; and in a batch no index is saved
while tasks are carried out. -/
theorem indexes_backed {w₁ : World} (hg : g.Follows o)
    (hprepare : run (prepare g files) (w.begun files.length) = (.ok (),w₁))
    (h : Point g files w₁ flushing v) : ∃ texts, Written texts w₁.disk v.disk ∧
      (∀ directory, ∀ baseName ∈ (v.indexes.state directory).entries,
        IsBacked g.setup files texts directory baseName ∧
          ∃ c, LeadsTo v.disk (moduleFor g.setup directory baseName) c) ∧
      (∀ x ∈ texts, IsEmitted g.setup files x ∨
        ∃ directory, IsIndexText g.setup v.indexes directory x ∧
          ∃ text, IsIndexText g.setup v.indexes directory (x.1,text) ∧
            Holds (fun q => q ≠ x.1 ∧ ∃ y ∈ texts, y.1 = q) x.1 text v.disk) ∧
      (g.setup.index.batch = true → flushing = false →
        ∀ x ∈ texts, IsEmitted g.setup files x) := by
  have hx : ∃ e : Extension, g.setup.hook.extension = e.text := extension_of_follows hg
  have hempty : w₁.indexes = [] := by
    obtain ⟨w₂,hclean,rfl⟩ := prepare_ok.1 hprepare
    exact (kept_of_clean hclean).1
  obtain ⟨texts,hbacked,hbatch⟩ := backed_of_point hx (fun _ hp => hp) hempty h
  refine ⟨texts,hbacked.written,fun directory b hb => ?_,fun x hm => ?_,hbatch⟩
  · have hentry := hbacked.entries directory b hb
    refine ⟨hentry,?_⟩
    obtain ⟨x,hm,hpath,-⟩ := hentry
    obtain ⟨text,-,c,-,hlead,-⟩ := hbacked.written.holds hm
    exact ⟨c,hpath ▸ hlead⟩
  · refine (hbacked.kinds x hm).imp_right fun ⟨directory,hindex⟩ => ⟨directory,hindex,?_⟩
    obtain ⟨text,htext,hholds⟩ := hbacked.written.holds hm
    refine ⟨text,?_,hholds⟩
    -- What was saved there last is no module, and no index of another directory.
    rcases hbacked.kinds _ htext with hmodule | ⟨other,hother⟩
    · exact absurd hindex.1 (indexPath_ne (x := (x.1,text)) hg hx hmodule)
    · exact indexPath_injective hg (hother.1.symm.trans hindex.1) ▸ hother

theorem world_of_finalize (g : HookGenerator) (w : World) :
    (run (finalize g) w).2.disk =
      (run (flushAll g.setup.index) (w.entered .finalizing).toWorld).2.disk ∧
      (run (finalize g) w).2.indexes =
        (run (flushAll g.setup.index) (w.entered .finalizing).toWorld).2.indexes := by
  unfold finalize
  simp only [run_bind,run_enter,Work.onIndexes,run_get,run_modify,Work.report,Work.note,run_pure]
  rw [show (flushAll g.setup.index).run (w.entered .finalizing).toWorld =
    run (flushAll g.setup.index) (w.entered .finalizing).toWorld from rfl]
  cases run (flushAll g.setup.index) (w.entered .finalizing).toWorld with
  | mk result inner => cases result <;> exact ⟨rfl,rfl⟩

theorem point_of_run {w₁ : World} {r : Except Halt Report} (hfound : g.discover w.disk = .ok files)
    (hne : files ≠ [])
    (hprepare : run (prepare g schedule.files) (w.begun files.length) = (.ok (),w₁))
    (h : run (runBy g schedule) w = (r,w')) :
    ∃ flushing v, Point g schedule.files w₁ flushing v ∧ w'.disk = v.disk ∧
    w'.indexes = v.indexes := by
  rw [run_runBy_of_discover hfound hne] at h
  unfold runOn at h
  rw [run_bind,run_ofWork_ok.2 hprepare] at h
  dsimp only at h
  rw [run_bind] at h
  have hworld := world_of_process (Progress.follow g.setup schedule.steps) schedule.files w₁
  cases hprocess : run (process (Progress.follow g.setup schedule.steps) schedule.files) w₁ with
  | mk result w₂ =>
    rw [hprocess] at h hworld
    cases result with
    | error halt =>
      obtain ⟨-,rfl⟩ := Prod.mk.inj h
      obtain rfl : w₂ = _ := hworld
      exact ⟨false,_,.processing schedule.steps,rfl,rfl⟩
    | ok u =>
      obtain ⟨hfault,hfinished,rfl⟩ := process_ok.1 hprocess
      dsimp only at h
      rw [run_ofWork] at h
      obtain ⟨-,rfl⟩ := Prod.mk.inj h
      cases hflush : run ((((Progress.start schedule.files w₁).follow g.setup
          schedule.steps).world.indexes.directories).mapM (flush g.setup.index))
          (((Progress.start schedule.files w₁).follow g.setup schedule.steps).world.entered
            .finalizing).toWorld with
      | mk result v =>
        refine ⟨true,v,.finalizing schedule.steps _ [] _ result v rfl hfault hfinished
          (by rw [List.append_nil]) hflush,?_⟩
        have hall := run_flushAll g.setup.index
          (((Progress.start schedule.files w₁).follow g.setup schedule.steps).world.entered
            .finalizing).toWorld
        have hend :
            (run (flushAll g.setup.index) (((Progress.start schedule.files w₁).follow g.setup
            schedule.steps).world.entered .finalizing).toWorld).2 = v := by
          rw [hall]
          rw [show run
            (((((Progress.start schedule.files w₁).follow g.setup schedule.steps).world.entered
            .finalizing).indexes.directories).mapM (flush g.setup.index)) _ =
              (result,v) from hflush]
          cases result <;> rfl
        exact hend ▸ world_of_finalize g _

end Point

/-- Two queries, and where the index for one of them is to be, a link to the index for the other
one. Modules go beside the directories that are made anew. -/
def linkedIndex : Trial where
  disk := {
    here := []
    tree := ⟨[(["src"],.directory),(["src","a"],.directory),
      (["src","a","A.graphql"],.file (Text.encode "query A { a }") false),
      (["src","a","gen"],.directory),(["src","a","gen","index.ts"],.link "../../b/gen/index.ts"),
      (["src","b"],.directory),(["src","b","B.graphql"],.file (Text.encode "query B { b }") false),
      (["t"],.directory),(["t","query.j2"],.file (Text.encode "// X") false)]⟩ }
  options := { HookOptions.standard with
    destination := "hooks", namePrefix := "../gen/use", batchIndex := true, templates := some "t" }
  files := [⟨.here,["src","a","A.graphql"]⟩,⟨.here,["src","b","B.graphql"]⟩]
  directories := [⟨.here,["src","a","hooks"]⟩,⟨.here,["src","b","hooks"]⟩]

def genOf (source : String) : Path := .ofString s!"src/{source}/hooks/../gen"

def flushed (g : HookGenerator) (p : Progress) : Except Fault (List (Option Path)) × Index.World :=
  run ([genOf "a",genOf "b"].mapM (flush g.setup.index)) (p.world.entered .finalizing).toWorld

def bothFlushed (g : HookGenerator) (p : Progress) : Bool :=
  p.fault.isNone && p.isFinished && decide (p.world.indexes.map (·.1) = [genOf "a",genOf "b"]) &&
    decide ((flushed g p).2.indexes.state (genOf "a") = ⟨["useAQuery"],false,false⟩) &&
    decide ((flushed g p).2.disk.read (g.setup.index.indexPath (genOf "a")) =
      .ok (Text.encode "export * from './useBQuery';\n"))

theorem point_of_flushed {g : HookGenerator} {files : List Path} {steps : List Nat}
    {w : World} {p : Progress}
    (hp : p = (Progress.start files w).follow g.setup steps) (hfault : p.fault = none)
    (hfinished : p.isFinished = true)
    (hlisted : p.world.indexes.map (·.1) = [genOf "a",genOf "b"]) :
    Point g files w true (flushed g p).2 := by
  have hsorted : Path.sorted [genOf "a",genOf "b"] = [genOf "a",genOf "b"] :=
    Path.sorted_of_pairwise (by decide +kernel) (by decide +kernel)
  refine .finalizing steps [genOf "a",genOf "b"] [] p (flushed g p).1 (flushed g p).2 hp
    hfault hfinished ?_ rfl
  rw [List.append_nil,Table.directories,hlisted,hsorted]

theorem exists_flushed :
    ∃ g w₁ v, HookGenerator.ofOptions [] linkedIndex.disk linkedIndex.options = .ok g ∧
    g.discover linkedIndex.disk = .ok linkedIndex.files ∧
    run (prepare g linkedIndex.files) linkedIndex.begun = (.ok (),w₁) ∧
    Point g linkedIndex.files w₁ true v ∧ v.indexes.state (genOf "a") =
      ⟨["useAQuery"],false,false⟩ ∧
    v.disk.read (g.setup.index.indexPath (genOf "a")) =
      .ok (Text.encode "export * from './useBQuery';\n") := by
  have hsound : linkedIndex.IsSound := Trial.isSound_of_checks (by decide +kernel)
  obtain ⟨g,hg,hfound,hdirs,hcheck⟩ := hsound.exists_generator
    (fun g => (run (clean linkedIndex.files linkedIndex.directories)
        (linkedIndex.begun.cleaning 2)).1.isOk &&
      bothFlushed g (linkedIndex.standing g (oneByOne 0 1))) (by decide +kernel)
  generalize hp : linkedIndex.standing g (oneByOne 0 1) = p at hcheck
  simp only [Bool.and_eq_true,bothFlushed,decide_eq_true_eq,Option.isNone_iff_eq_none] at hcheck
  obtain ⟨hclean,⟨⟨⟨hfault,hfinished⟩,hlisted⟩,hstate⟩,hread⟩ := hcheck
  cases hr :
    run (clean linkedIndex.files linkedIndex.directories) (linkedIndex.begun.cleaning 2) with
  | mk result w₂ =>
    rw [hr] at hclean
    cases result with
    | error fault => cases hclean
    | ok u =>
      rw [Trial.standing,standing,show linkedIndex.files.length = 2 from rfl,hr] at hp
      exact ⟨g,w₂.processing,(flushed g p).2,hg,hfound,prepare_ok.2 ⟨w₂,hdirs ▸ hr,rfl⟩,
        point_of_flushed hp.symm hfault hfinished hlisted,hstate,hread⟩

theorem flushed_index_backed : ∃ g w₁ v texts, g.Follows linkedIndex.options ∧
    run (prepare g linkedIndex.files) linkedIndex.begun = (.ok (),w₁) ∧
    Point g linkedIndex.files w₁ true v ∧ Written texts w₁.disk v.disk ∧
    IsBacked g.setup linkedIndex.files texts (genOf "a") "useAQuery" := by
  obtain ⟨g,w₁,v,hg,-,hprepare,hpoint,hstate,-⟩ := exists_flushed
  have hfollows := HookGenerator.follows_of_ofOptions hg
  obtain ⟨texts,hwritten,hentries,-⟩ :=
    indexes_backed (w := .ofDisk linkedIndex.disk) hfollows hprepare hpoint
  exact ⟨g,w₁,v,texts,hfollows,hprepare,hpoint,hwritten,
    (hentries (genOf "a") "useAQuery" (by rw [hstate]; exact List.mem_singleton_self _)).1⟩

theorem mem_intercalate_cases {c : Char} {between : List Char} {lines : List (List Char)}
    (h : c ∈ between.intercalate lines) : c ∈ between ∨ ∃ line ∈ lines, c ∈ line := by
  induction lines with
  | nil => simp at h
  | cons line rest ih =>
    cases rest with
    | nil => exact .inr ⟨line,List.mem_cons_self,by simpa using h⟩
    | cons next rest =>
      rw [List.intercalate_cons_cons,List.mem_append,List.mem_append] at h
      rcases h with (h | h) | h
      · exact .inr ⟨line,List.mem_cons_self,h⟩
      · exact .inl h
      · exact (ih h).imp_right fun ⟨l,hl,hc⟩ => ⟨l,List.mem_cons_of_mem _ hl,hc⟩

theorem mem_textOf_cases {c : Char} {nested : Bool} {entries : List String}
    (h : c ∈ (textOf nested entries).toList) :
    c = '\n' ∨ c ∈ nestedStatement.toList ∨ ∃ baseName ∈ entries,
      c ∈ (statement baseName).toList := by
  rw [toList_textOf,Format.joinWithEnds,List.mem_append] at h
  rcases h with h | h
  · rcases mem_intercalate_cases h with h | ⟨line,hl,hc⟩
    · exact .inl (List.mem_singleton.1 h)
    · obtain ⟨text,ht,rfl⟩ := List.mem_map.1 hl
      rw [linesOf_eq] at ht
      rcases List.mem_append.1 ht with ht | ht
      · split at ht
        · exact .inr (.inl (List.mem_singleton.1 ht ▸ hc))
        · cases ht
      · obtain ⟨b,hb,rfl⟩ := List.mem_map.1 ht
        exact .inr (.inr ⟨b,(sortEntries_perm entries).mem_iff.1 hb,hc⟩)
  · exact .inl (List.mem_singleton.1 h)

/-- An index that is up to date need not say what any of its entries are rendered to. -/
theorem linked_index_astray : ¬ ∀ (o : HookOptions) (d : Disk) (g : HookGenerator)
    (files : List Path) (w₁ : World) (flushing : Bool) (v : Index.World),
    HookGenerator.ofOptions [] d o = .ok g → g.discover d = .ok files →
    run (prepare g files) ((World.ofDisk d).begun files.length) = (.ok (),w₁) →
    Point g files w₁ flushing v → ∀ directory, (v.indexes.state directory).entries ≠ [] →
    (v.indexes.state directory).dirty = false → ∃ text,
      IsIndexText g.setup v.indexes directory (g.setup.index.indexPath directory,text) ∧
      v.disk.read (g.setup.index.indexPath directory) = .ok (Text.encode text) := by
  intro h
  obtain ⟨g,w₁,v,hg,hfound,hprepare,hpoint,hstate,hread⟩ := exists_flushed
  obtain ⟨text,⟨-,names,before,-,-,hsub,hf⟩,hread'⟩ := h linkedIndex.options linkedIndex.disk g
    linkedIndex.files w₁ true v hg hfound hprepare hpoint (genOf "a")
      (by rw [hstate]; simp) (by rw [hstate])
  obtain rfl : "export * from './useBQuery';\n" = text :=
    Text.encode_injective (Except.ok.inj (hread.symm.trans hread'))
  rw [hstate] at hsub
  obtain ⟨style,-,-,hformatting⟩ := HookGenerator.basic_of_ofOptions hg rfl
  obtain ⟨⟨nested,disk,hformat⟩,-⟩ := renders_of_formatted hf
  rw [hformatting,Format.format_basic] at hformat
  have hname : ∀ b ∈ names, b = "useAQuery" := fun b hb => List.mem_singleton.1 (hsub hb)
  have hends : ("useAQuery".toList.all fun c => !Text.isLineEnd c) = true := by decide
  cases hb : Format.basic? style (textOf nested names) with
  | none => rw [hb] at hformat; cases hformat
  | some text =>
    rw [hb] at hformat
    obtain rfl := Except.ok.inj hformat
    have htext : "export * from './useBQuery';\n" = textOf nested names :=
      basic_textOf (fun b hb c hc => by
      rw [hname b hb] at hc
      simpa using List.all_eq_true.1 hends c hc) hb
    have hmem : 'B' ∈ (textOf nested names).toList := by rw [← htext]; decide
    rcases mem_textOf_cases hmem with hc | hc | ⟨b,hb,hc⟩
    · cases hc
    · exact absurd hc (by decide)
    · rw [hname b hb] at hc
      exact absurd hc (by decide)

end OperationHooks.Run
