import OperationHooks.Proofs.Index.Flush
/-!
Registrations side by side on any disk, and a flush after them. No two of them are at one directory,
and an index that no other one leads to is what exactly the registered entries were rendered to.
-/
set_option autoImplicit false

namespace OperationHooks.Index
open Effect Disk

def IndexBeside (s : Settings) (used : Path → Prop) (directory q : Path) : Prop :=
  ∃ other, used other ∧ other ≠ directory ∧ q = s.indexPath other

/-- The index of a directory is what some entries were rendered to on some disk, as far as no other
index leads there. -/
def HasIndex (s : Settings) (used : Path → Prop) (directory : Path)
    (entries : List String) (d : Disk) :
    Prop :=
  ∃ before text, s.formatted before directory entries = .ok text ∧
    Holds (IndexBeside s used directory) (s.indexPath directory) text d

structure Current (s : Settings) (used : Path → Prop) (calls : Calls) (w : World) : Prop where
  coherent : Coherent calls w.indexes
  storing : ∀ i c text, calls i = some c → c.stage = .storing text → ∃ before,
    s.formatted before c.directory (w.indexes.state c.directory).entries = .ok text
  stands : s.batch = false → ∀ directory, (w.indexes.state directory).entries ≠ [] →
    (∀ i c, calls i = some c → c.directory = directory → c.stage.isUnwritten = false) →
    HasIndex s used directory (w.indexes.state directory).entries w.disk
  batch : s.batch = true → ∀ i c, calls i = some c → c.stage.isWriting = false
  dirty : s.batch = true → ∀ directory, (w.indexes.state directory).entries ≠ [] →
    (w.indexes.state directory).dirty = true

section HasIndex

variable {s : Settings} {used : Path → Prop} {directory other : Path}
  {entries : List String} {d d' : Disk}
variable {text : String}

theorem HasIndex.saved (h : HasIndex s used directory entries d) (hu : used other)
    (hne : other ≠ directory)
    (hs : Saved (s.indexPath other) text d d') : HasIndex s used directory entries d' := by
  obtain ⟨before,text',hf,hh⟩ := h
  exact ⟨before,text',hf,hh.saved ⟨other,hu,hne,rfl⟩ hs⟩

theorem HasIndex.grown (h : HasIndex s used directory entries d) (hg : Changed Tree.Grown d d') :
    HasIndex s used directory entries d' := by
  obtain ⟨before,text,hf,hh⟩ := h
  exact ⟨before,text,hf,hh.grown hg⟩

end HasIndex

namespace Current

variable {s : Settings} {used : Path → Prop} {calls : Calls} {w w' : World} {i : Nat}
variable {directory : Path} {baseName : String} {stage stage' : Stage}

theorem forall_put {P : Nat → Call → Prop} (h : ∀ j c, calls j = some c → P j c)
    {c : Call} (hc : P i c) :
    ∀ j c', calls.put i c j = some c' → P j c' := by
  intro j c' hj
  by_cases he : j = i
  · subst he
    rw [Calls.put_self] at hj
    obtain rfl := Option.some.inj hj
    exact hc
  · rw [Calls.put_of_ne _ _ he] at hj
    exact h j c' hj

theorem still (h : Current s used calls w) (hi : calls i = some ⟨directory,baseName,stage⟩)
    (hc : Coherent (calls.put i ⟨directory,baseName,stage'⟩) w'.indexes) (hdisk : w'.disk = w.disk)
    (hentries : ∀ other, (w'.indexes.state other).entries = (w.indexes.state other).entries)
    (hdirty : s.batch = true → ∀ other, (w'.indexes.state other).dirty =
      (w.indexes.state other).dirty)
    (hstoring : ∀ text, stage' = .storing text →
      ∃ before, s.formatted before directory (w.indexes.state directory).entries = .ok text)
    (hunwritten : stage.isUnwritten = true → stage'.isUnwritten = true)
    (hwriting : s.batch = true → stage'.isWriting = false) :
    Current s used (calls.put i ⟨directory,baseName,stage'⟩) w' := by
  refine ⟨hc,fun j c text hj => ?_,fun hb other ho hw => ?_,fun hb => ?_,fun hb other ho => ?_⟩
  · rw [hentries]
    exact forall_put (P := fun _ c => c.stage = .storing text → ∃ before,
      s.formatted before c.directory (w.indexes.state c.directory).entries = .ok text)
      (fun j c hj => h.storing j c text hj) (hstoring text) j c hj
  · rw [hentries] at ho ⊢
    rw [hdisk]
    refine h.stands hb other ho fun j c hj hd => ?_
    by_cases he : j = i
    · subst he
      rw [hi] at hj
      obtain rfl := Option.some.inj hj
      exact Bool.eq_false_iff.2
        fun hs => by simpa [hunwritten hs] using hw j _ (Calls.put_self _ _ _) hd
    · exact hw j c ((Calls.put_of_ne _ _ he).trans hj) hd
  · exact forall_put (h.batch hb) (hwriting hb)
  · rw [hentries] at ho
    rw [hdirty hb]
    exact h.dirty hb other ho

/-- An entry is added; in a batch it waits to be written, else writing it comes next. -/
theorem add (h : Current s used calls w) (hi : calls i = some ⟨directory,baseName,.adding⟩)
    (hc : Coherent
      (calls.put i ⟨directory,baseName,if s.batch then .releasing none else .rendering⟩)
      (w.modify directory fun state =>
        { state with entries := state.entries ++ [baseName], dirty := true }).indexes) :
    Current s used
      (calls.put i ⟨directory,baseName,if s.batch then .releasing none else .rendering⟩)
      (w.modify directory fun state =>
        { state with entries := state.entries ++ [baseName], dirty := true }) := by
  refine ⟨hc,?_,fun hb other ho hw => ?_,fun hb => ?_,fun hb other ho => ?_⟩
  · intro j c text hj hs
    by_cases he : j = i
    · subst he
      rw [Calls.put_self] at hj
      obtain rfl := Option.some.inj hj
      dsimp only at hs
      split at hs <;> cases hs
    · rw [Calls.put_of_ne _ _ he] at hj
      have hne : c.directory ≠ directory := fun hd => by
        have hin := h.coherent.alone_of_inside hi rfl j c he hj hd
        rw [hs] at hin
        cases hin
      rw [World.indexes_modify,Table.state_modify_of_ne _ _ hne]
      exact h.storing j c text hj hs
  · have hne : other ≠ directory := by
      rintro rfl
      have hself := hw i _ (Calls.put_self _ _ _) rfl
      rw [hb] at hself
      cases hself
    rw [World.indexes_modify,Table.state_modify_of_ne _ _ hne] at ho ⊢
    refine h.stands hb other ho fun j c hj hd => hw j c ?_ hd
    rw [Calls.put_of_ne _ _ fun he => ?_]
    · exact hj
    · subst he
      rw [hi] at hj
      obtain rfl := Option.some.inj hj
      exact hne hd.symm
  · refine forall_put (h.batch hb) ?_
    rw [hb]
    rfl
  · by_cases he : other = directory
    · subst he; simp
    · rw [World.indexes_modify,Table.state_modify_of_ne _ _ he] at ho ⊢
      exact h.dirty hb other ho

theorem onDisk (h : Current s used calls w) (hi : calls i = some ⟨directory,baseName,stage⟩)
    (hc : Coherent (calls.put i ⟨directory,baseName,stage'⟩) w.indexes) {d : Disk}
    (hstage : ∀ text, stage' ≠ .storing text) (hwriting : s.batch = true → stage'.isWriting = false)
    (hself : stage'.isUnwritten = false →
      HasIndex s used directory (w.indexes.state directory).entries d)
    (hother : ∀ other, other ≠ directory →
      HasIndex s used other (w.indexes.state other).entries w.disk →
      HasIndex s used other (w.indexes.state other).entries d) :
    Current s used (calls.put i ⟨directory,baseName,stage'⟩) { w with disk := d } := by
  refine ⟨hc,fun j c text hj => ?_,fun hb other ho hw => ?_,
    fun hb => forall_put (h.batch hb) (hwriting hb),
    h.dirty⟩
  · exact forall_put (P := fun _ c => c.stage = .storing text → ∃ before,
      s.formatted before c.directory (w.indexes.state c.directory).entries = .ok text)
      (fun j c hj => h.storing j c text hj) (fun he => absurd he (hstage text)) j c hj
  · by_cases he : other = directory
    · subst he
      exact hself (hw i _ (Calls.put_self _ _ _) rfl)
    · refine hother other he (h.stands hb other ho fun j c hj hd => hw j c ?_ hd)
      rw [Calls.put_of_ne _ _ fun he' => ?_]
      · exact hj
      · subst he'
        rw [hi] at hj
        obtain rfl := Option.some.inj hj
        exact he hd.symm

theorem moves (h : Current s used calls w) (hu : used directory)
    (hi : calls i = some ⟨directory,baseName,stage⟩)
    (hm : Moves s directory baseName w stage stage' w') :
    Current s used (calls.put i ⟨directory,baseName,stage'⟩) w' := by
  have hc := h.coherent.moves hi hm
  have hbatch : stage.isWriting = true → s.batch ≠ true := fun hw hb => by
    have hno := h.batch hb i _ hi
    rw [hw] at hno
    cases hno
  cases hm with
  | lock hl =>
    exact h.still hi hc rfl
      (Table.entries_modify (fun state => { state with locked := true }) (fun _ => rfl) _ _)
      (fun _ => Table.dirty_modify (fun state => { state with locked := true }) (fun _ => rfl) _ _)
      (by simp) (fun h => h) fun _ => rfl
  | repeated message hb =>
    exact h.still hi hc rfl (fun _ => rfl) (fun _ _ => rfl) (by simp) (fun h => by cases h)
      fun _ => rfl
  | add hb => exact h.add hi hc
  | render text hr =>
    refine h.still hi hc rfl (fun _ => rfl) (fun _ _ => rfl) (fun text' he => ?_) (fun _ => rfl)
      fun hb => absurd hb (hbatch rfl)
    obtain rfl := Stage.storing.inj he
    exact ⟨w.disk,hr⟩
  | unrendered fault hr =>
    exact h.still hi hc rfl (fun _ => rfl) (fun _ _ => rfl) (by simp) (fun _ => rfl) fun _ => rfl
  | store text d hr =>
    have hs := saved_of_save hr
    refine h.onDisk hi hc (by simp) (fun hb => absurd hb (hbatch rfl)) (fun _ => ?_)
      fun other hne ho =>
      ho.saved hu (Ne.symm hne) hs
    obtain ⟨before,hf⟩ := h.storing i _ text hi rfl
    exact ⟨before,text,hf,.of_saved hs⟩
  | unstored text fault d hr =>
    exact h.onDisk hi hc (by simp) (fun _ => rfl) (fun he => by cases he) fun other _ ho =>
      ho.grown (grown_of_unsaved hr)
  | settle =>
    exact h.still hi hc rfl
      (Table.entries_modify (fun state => { state with dirty := false }) (fun _ => rfl) _ _)
      (fun hb => absurd hb (hbatch rfl)) (by simp) (fun h => by cases h) fun _ => rfl
  | release fault =>
    refine h.still hi hc rfl
      (Table.entries_modify (fun state => { state with locked := false }) (fun _ => rfl) _ _)
      (fun _ => Table.dirty_modify (fun state => { state with locked := false }) (fun _ => rfl) _ _)
      (by simp) (fun h => ?_) fun _ => rfl
    cases fault with
    | none => cases h
    | some fault => rfl

end Current

/-- Registrations that are going on, and the world they have made. -/
structure Round where
  calls : List Call
  world : World

namespace Round

def start (registrations : List (Path × String)) (w : World) : Round :=
  ⟨registrations.map fun x => ⟨x.1,x.2,.waiting⟩,w⟩

def step (s : Settings) (x : Round) (i : Nat) : Round :=
  match x.calls[i]? with
  | none => x
  | some c =>
    match c.stage.advance s c.directory c.baseName x.world with
    | none => x
    | some (stage,w) => ⟨x.calls.set i { c with stage },w⟩

def follow (s : Settings) (x : Round) (schedule : List Nat) : Round := schedule.foldl (step s) x

variable {s : Settings} {used : Path → Prop} {registrations : List (Path × String)}
  {w : World} {x : Round}

theorem step_cases (s : Settings) (x : Round) (i : Nat) : x.step s i = x ∨
    ∃ c stage w, x.calls[i]? = some c ∧ Moves s c.directory c.baseName x.world c.stage stage w ∧
      x.step s i = ⟨x.calls.set i { c with stage },w⟩ := by
  unfold step
  cases hi : x.calls[i]? with
  | none => exact .inl rfl
  | some c =>
    cases ha : c.stage.advance s c.directory c.baseName x.world with
    | none => exact .inl (by dsimp only; rw [ha])
    | some next =>
      obtain ⟨stage,w⟩ := next
      exact .inr ⟨c,stage,w,rfl,moves_of_advance ha,by dsimp only; rw [ha]⟩

/-- What is registered does not change, and table and disk keep up. -/
structure Goes (s : Settings) (used : Path → Prop)
    (registrations : List (Path × String)) (x : Round) :
    Prop where
  calls : x.calls.map (fun c => (c.directory,c.baseName)) = registrations
  current : Current s used (fun i => x.calls[i]?) x.world

theorem goes_start (s : Settings) (used : Path → Prop) (registrations : List (Path × String))
    (hw : w.indexes = []) : Goes s used registrations (start registrations w) := by
  have hwaiting : ∀ (i : Nat) c, (start registrations w).calls[i]? = some c →
      c.stage = .waiting := by
    intro i c hi
    have hi : (registrations.map fun x => (⟨x.1,x.2,.waiting⟩ : Call))[i]? = some c := hi
    rw [List.getElem?_map] at hi
    obtain ⟨x,-,rfl⟩ := Option.map_eq_some_iff.1 hi
    rfl
  have hempty : ∀ directory, w.indexes.state directory = .empty := fun directory => by rw [hw]; rfl
  have hnone : ∀ directory, ¬ (w.indexes.state directory).entries ≠ [] := fun directory h => by
    rw [hempty] at h
    exact h rfl
  refine ⟨?_,⟨fun directory => ?_,fun i j c c' hi _ _ hs => ?_,fun directory baseName => ?_,
    fun directory => ?_,fun directory hd => ?_⟩,fun i c text hi hs => ?_,
    fun _ directory hd => absurd hd (hnone directory),fun _ i c hi => ?_,
    fun _ directory hd => absurd hd (hnone directory)⟩
  · show (registrations.map fun x => (⟨x.1,x.2,.waiting⟩ : Call)).map _ = registrations
    rw [List.map_map]
    exact List.map_id registrations
  · refine ⟨fun h => ?_,?_⟩
    · have hstate : (w.indexes.state directory).locked = true := h
      rw [hempty] at hstate
      cases hstate
    · rintro ⟨i,c,hi,-,hs⟩
      rw [hwaiting i c hi] at hs
      cases hs
  · rw [hwaiting i c hi] at hs
    cases hs
  · refine ⟨fun h => ?_,?_⟩
    · have hstate : baseName ∈ (w.indexes.state directory).entries := h
      rw [hempty] at hstate
      cases hstate
    · rintro ⟨i,c,hi,-,-,hs⟩
      rw [hwaiting i c hi] at hs
      cases hs
  · show (w.indexes.state directory).entries.Nodup
    rw [hempty]
    exact List.nodup_nil
  · have hd : directory ∈ w.indexes.directories := hd
    rw [hw] at hd
    exact absurd rfl (Table.mem_directories.1 hd)
  · rw [hwaiting i c hi] at hs
    cases hs
  · rw [hwaiting i c hi]
    rfl

theorem Goes.step (h : Goes s used registrations x) (hu : ∀ r ∈ registrations, used r.1) (i : Nat) :
    Goes s used registrations (x.step s i) := by
  rcases step_cases s x i with he | ⟨c,stage,w,hi,hm,he⟩ <;> rw [he]
  · exact h
  · obtain ⟨hlt,hget⟩ := List.getElem?_eq_some_iff.1 hi
    have hused : used c.directory := by
      refine hu (c.directory,c.baseName) ?_
      rw [← h.calls]
      exact List.mem_map.2 ⟨c,List.mem_of_getElem? hi,rfl⟩
    have hput : (fun j => (x.calls.set i { c with stage })[j]?) =
        Calls.put (fun j => x.calls[j]?) i { c with stage } := by
      funext j
      by_cases hj : j = i
      · subst hj
        rw [Calls.put_self,List.getElem?_set_self hlt]
      · rw [Calls.put_of_ne _ _ hj,List.getElem?_set_ne (Ne.symm hj)]
    refine ⟨?_,?_⟩
    · rw [← h.calls]
      refine List.ext_getElem? fun j => ?_
      rw [List.getElem?_map,List.getElem?_map,List.getElem?_set]
      by_cases hj : i = j
      · subst hj
        simp [hlt,hget]
      · rw [if_neg hj]
    · show Current s used (fun j => (x.calls.set i { c with stage })[j]?) w
      rw [hput]
      exact h.current.moves hused hi hm

theorem goes_follow (hw : w.indexes = []) (hu : ∀ r ∈ registrations, used r.1)
    (schedule : List Nat) :
    Goes s used registrations ((start registrations w).follow s schedule) := by
  have hall : ∀ (schedule : List Nat) (x : Round), Goes s used registrations x →
      Goes s used registrations (x.follow s schedule) := by
    intro schedule
    induction schedule with
    | nil => exact fun _ h => h
    | cons i rest ih => exact fun x h => ih (x.step s i) (h.step hu i)
  exact hall schedule _ (goes_start s used registrations hw)

end Round

/-- Every index that has entries stands, or it is still to be written. -/
def Pending (s : Settings) (used : Path → Prop) (todo : List Path) (w : World) : Prop :=
  ∀ directory, (w.indexes.state directory).entries ≠ [] →
    HasIndex s used directory (w.indexes.state directory).entries w.disk ∨
      directory ∈ todo ∧ (w.indexes.state directory).dirty = true

section Flush

variable {s : Settings} {used : Path → Prop} {directory : Path} {todo : List Path} {w w' : World}

theorem Pending.flush (h : Pending s used (directory :: todo) w) (hu : used directory)
    {path : Option Path}
    (hr : run (flush s directory) w = (.ok path,w')) : Pending s used todo w' ∧
      ∀ other, (w'.indexes.state other).entries = (w.indexes.state other).entries := by
  rcases flush_cases hr with ⟨hdirty,rfl⟩ | ⟨-,text,d,hf,hs,rfl⟩
  · refine ⟨fun other => ?_,fun other => by rw [Table.state_enter]⟩
    dsimp only
    rw [Table.state_enter]
    intro ho
    refine (h other ho).imp_right fun hi => ⟨(List.mem_cons.1 hi.1).resolve_left ?_,hi.2⟩
    rintro rfl
    rw [hdirty] at hi
    cases hi.2
  · have hsaved := saved_of_save hs
    have hentries := entries_rewritten s directory d w
    refine ⟨fun other ho => ?_,hentries⟩
    have he : ((rewritten s directory d w).indexes.state other).entries =
      (w.indexes.state other).entries := hentries other
    show HasIndex s used other ((rewritten s directory d w).indexes.state other).entries d ∨
      other ∈ todo ∧ ((rewritten s directory d w).indexes.state other).dirty = true
    rw [he]
    by_cases hd : other = directory
    · subst hd
      exact .inl ⟨w.disk,text,hf,.of_saved hsaved⟩
    · rw [dirty_rewritten s d w hd]
      rcases h other (he ▸ ho) with hi | ⟨hm,hi⟩
      · exact .inl (hi.saved hu (Ne.symm hd) hsaved)
      · exact .inr ⟨(List.mem_cons.1 hm).resolve_left hd,hi⟩

theorem Pending.flushes {directories : List Path} (h : Pending s used directories w)
    (hu : ∀ directory ∈ directories, used directory) {paths : List (Option Path)}
    (hr : run (directories.mapM (Index.flush s)) w = (.ok paths,w')) : Pending s used [] w' ∧
      ∀ other, (w'.indexes.state other).entries = (w.indexes.state other).entries := by
  induction directories generalizing w paths with
  | nil =>
    rw [List.mapM_nil] at hr
    obtain ⟨-,rfl⟩ := Prod.mk.inj hr
    exact ⟨h,fun _ => rfl⟩
  | cons first rest ih =>
    rw [List.mapM_cons,bind_eq_ok] at hr
    obtain ⟨path,w₁,hfirst,hr⟩ := hr
    obtain ⟨others,w₂,hrest,hr⟩ := bind_eq_ok.1 hr
    obtain ⟨-,rfl⟩ := Prod.mk.inj hr
    obtain ⟨hu₁,hurest⟩ := List.forall_mem_cons.1 hu
    obtain ⟨h₁,he₁⟩ := h.flush hu₁ hfirst
    obtain ⟨h₂,he₂⟩ := ih h₁ hurest hrest
    exact ⟨h₂,fun other => (he₂ other).trans (he₁ other)⟩

theorem Pending.flushAll (h : Pending s used w.indexes.directories w)
    (hu : ∀ directory ∈ w.indexes.directories, used directory) {paths : List Path}
    (hr : run (flushAll s) w = (.ok paths,w')) : Pending s used [] w' ∧
      ∀ other, (w'.indexes.state other).entries = (w.indexes.state other).entries := by
  rw [run_flushAll] at hr
  cases hm : run (w.indexes.directories.mapM (Index.flush s)) w with
  | mk result w₁ =>
    rw [hm] at hr
    cases result with
    | error fault => cases hr
    | ok written =>
      obtain ⟨-,rfl⟩ := Prod.mk.inj hr
      exact h.flushes hu hm

theorem Current.pending {calls : Calls} (h : Current s used calls w)
    (hended : ∀ i c, calls i = some c → c.stage = .ended none) :
    Pending s used w.indexes.directories w := by
  intro directory hd
  cases hb : s.batch with
  | true => exact .inr ⟨Table.mem_directories_of_entries hd,h.dirty hb _ hd⟩
  | false => exact .inl (h.stands hb _ hd fun i c hi _ => by rw [hended i c hi]; rfl)

end Flush

section Over

variable {s : Settings} {registrations : List (Path × String)} {w : World}

/-- At no point are two registrations at one directory; and when all of them are over, and a flush
is, each index that shares its file with no other one is what exactly the registered entries were
rendered to. -/
theorem registrations_kept (hw : w.indexes = []) :
    (∀ (schedule : List Nat) (i j : Nat) (c c' : Call),
      ((Round.start registrations w).follow s schedule).calls[i]? = some c →
      ((Round.start registrations w).follow s schedule).calls[j]? = some c' →
      c.directory = c'.directory → c.stage.isInside = true → c'.stage.isInside = true → i = j) ∧
    ∀ (schedule : List Nat) (paths : List Path) (w' : World),
      (∀ c ∈ ((Round.start registrations w).follow s schedule).calls, c.stage = .ended none) →
      run (flushAll s) ((Round.start registrations w).follow s schedule).world = (.ok paths,w') →
      ∀ r ∈ registrations, (∀ r' ∈ registrations, r'.1 ≠ r.1 →
        ¬ OneFile w'.disk (s.indexPath r.1) (s.indexPath r'.1)) →
      ∃ entries before text, entries.Nodup ∧
        (∀ baseName, baseName ∈ entries ↔ (r.1,baseName) ∈ registrations) ∧
        s.formatted before r.1 entries = .ok text ∧
        w'.disk.read (s.indexPath r.1) = .ok (Text.encode text) := by
  let used : Path → Prop := fun directory => ∃ r ∈ registrations, r.1 = directory
  have hgoes :
      ∀ schedule,
      Round.Goes s used registrations ((Round.start registrations w).follow s schedule) :=
    Round.goes_follow hw fun r hr => ⟨r,hr,rfl⟩
  refine ⟨fun schedule i j c c' => (hgoes schedule).current.coherent.alone i j c c',
    fun schedule paths w' hended hflush r hr hapart => ?_⟩
  obtain ⟨hcalls,hcurrent⟩ := hgoes schedule
  have hall : ∀ (i : Nat) c, ((Round.start registrations w).follow s schedule).calls[i]? = some c →
      c.stage = .ended none := fun i c hi => hended c (List.mem_of_getElem? hi)
  have hcall : ∀ directory baseName, (directory,baseName) ∈ registrations ↔
      ∃ c ∈ ((Round.start registrations w).follow s schedule).calls,
        (c.directory,c.baseName) = (directory,baseName) := fun directory baseName => by
    rw [← List.mem_map,hcalls]
  have hmem : ∀ directory baseName, baseName ∈
      (((Round.start registrations w).follow s schedule).world.indexes.state directory).entries ↔
        (directory,baseName) ∈ registrations := by
    intro directory baseName
    rw [hcurrent.coherent.entries,hcall]
    constructor
    · rintro ⟨i,c,hi,rfl,rfl,-⟩
      exact ⟨c,List.mem_of_getElem? hi,rfl⟩
    · rintro ⟨c,hc,he⟩
      obtain ⟨i,hi⟩ := List.getElem?_of_mem hc
      obtain ⟨rfl,rfl⟩ := Prod.mk.inj he
      exact ⟨i,c,hi,rfl,rfl,by rw [hall i c hi]; rfl⟩
  have hused : ∀ directory ∈
      ((Round.start registrations w).follow s schedule).world.indexes.directories,
        used directory := by
    intro directory hd
    obtain ⟨i,c,hi,rfl⟩ := hcurrent.coherent.listed directory hd
    exact ⟨_,(hcall _ _).2 ⟨c,List.mem_of_getElem? hi,rfl⟩,rfl⟩
  obtain ⟨hpending,hentries⟩ := (hcurrent.pending hall).flushAll hused hflush
  have hne : (w'.indexes.state r.1).entries ≠ [] := by
    rw [hentries]
    exact List.ne_nil_of_mem ((hmem r.1 r.2).2 hr)
  obtain ⟨before,text,hformatted,hholds⟩ := (hpending r.1 hne).resolve_right fun h => by cases h.1
  rw [hentries] at hformatted
  refine ⟨_,before,text,hcurrent.coherent.nodup r.1,fun baseName => hmem r.1 baseName,hformatted,
    hholds.read ?_⟩
  rintro q ⟨other,⟨r',hr',rfl⟩,hother,rfl⟩
  exact hapart r' hr' hother

end Over

def plainSettings (batch : Bool) : Settings := ⟨"ts",batch,standardNested,fun _ text => .ok text⟩

def linkedIndex : World where
  disk :=
    { here := []
      tree := ⟨[(["a"],.directory),(["b"],.directory),(["a","index.ts"],.link "../b/index.ts")]⟩ }
  indexes := []
  log := []

def turns : Round :=
  (Round.start [(.ofString "c","X"),(.ofString "a","Y"),(.ofString "c","X"),(.ofString "b","Z")]
    linkedIndex).follow (plainSettings false) (List.replicate 12 [0,1,2,3]).flatten

def Stage.isOver : Stage → Bool
  | .ended none => true
  | _ => false

theorem ended_of_isOver {stage : Stage} (h : stage.isOver = true) : stage = .ended none := by
  cases stage with
  | ended fault =>
    cases fault with
    | none => rfl
    | some fault => cases h
  | _ => cases h

theorem registrations_kept_in_turns : ∃ paths w',
    run (flushAll (plainSettings false)) turns.world = (.ok paths,w') ∧
    ∃ entries before text, entries.Nodup ∧ (∀ baseName, baseName ∈ entries ↔
      (Path.ofString "c",baseName) ∈
        [(Path.ofString "c","X"),(.ofString "a","Y"),(.ofString "c","X"),
        (.ofString "b","Z")]) ∧
      (plainSettings false).formatted before (.ofString "c") entries = .ok text ∧
      w'.disk.read ((plainSettings false).indexPath (.ofString "c")) = .ok (Text.encode text) := by
  have hover : (turns.calls.all fun c => c.stage.isOver) = true := by decide +kernel
  obtain ⟨w',hflush,hdisk⟩ := run_flushAll_idle (plainSettings false) (w := turns.world)
    (Table.dirty_eq_false_of_all (by decide +kernel))
  have hc : turns.world.disk.walk true ((plainSettings false).indexPath (.ofString "c")) = .ok
      (.entry ["c","index.ts"] (.file (Text.encode "export * from './X';\n") false)) := by
        decide +kernel
  have hshared : ∀ directory, directory = "a" ∨ directory = "b" →
      turns.world.disk.walk true ((plainSettings false).indexPath (.ofString directory)) = .ok
        (.entry ["b","index.ts"] (.file (Text.encode "export * from './Z';\n") false)) := by
    rintro directory (rfl | rfl) <;> decide +kernel
  have hapart : ∀ directory, directory = "a" ∨ directory = "b" → ¬ OneFile w'.disk
      ((plainSettings false).indexPath (.ofString "c"))
      ((plainSettings false).indexPath (.ofString directory)) := fun directory hd => by
    rw [hdisk]
    exact not_oneFile hc (hshared directory hd) (by decide)
  refine ⟨[],w',hflush,(registrations_kept (w := linkedIndex) rfl).2 _ [] w'
    (fun c hc => ended_of_isOver (List.all_eq_true.1 hover c hc)) hflush (.ofString "c",
      "X") (by simp) ?_⟩
  simp [hapart]

def linkedRound : Round :=
  (Round.start [(.ofString "a","X"),(.ofString "b","Y")] linkedIndex).follow (plainSettings false)
    (List.replicate 6 0 ++ List.replicate 6 1)

theorem registration_lost : (∀ c ∈ linkedRound.calls, c.stage = .ended none) ∧
    linkedRound.world.disk.walk true (.ofString "a") = .ok (.entry ["a"] .directory) ∧
    linkedRound.world.disk.walk true (.ofString "b") = .ok (.entry ["b"] .directory) ∧ ∃ paths w',
    run (flushAll (plainSettings false)) linkedRound.world = (.ok paths,w') ∧
    ¬ ∃ entries before text, entries.Nodup ∧ (∀ baseName, baseName ∈ entries ↔
      (Path.ofString "a",baseName) ∈ [(Path.ofString "a","X"),(.ofString "b","Y")]) ∧
      (plainSettings false).formatted before (.ofString "a") entries = .ok text ∧
      w'.disk.read ((plainSettings false).indexPath (.ofString "a")) = .ok (Text.encode text) := by
  have hover : (linkedRound.calls.all fun c => c.stage.isOver) = true := by decide
  obtain ⟨w',hflush,hdisk⟩ := run_flushAll_idle (plainSettings false) (w := linkedRound.world)
    (Table.dirty_eq_false_of_all (by decide))
  refine ⟨fun c hc => ended_of_isOver (List.all_eq_true.1 hover c hc),by decide,by decide,
    [],w',hflush,?_⟩
  rintro ⟨entries,before,text,hnodup,hentries,hformatted,hread⟩
  have hperm : entries.Perm ["X"] :=
    (List.perm_ext_iff_of_nodup hnodup (by simp)).2 fun baseName => by
    rw [hentries]
    simp [(by decide : Path.ofString "a" ≠ .ofString "b")]
  obtain ⟨⟨nested,d,hrenders⟩,-⟩ := renders_of_formatted hformatted
  have htext : textOf nested ["X"] = text := by
    rw [← textOf_congr hperm]
    exact Except.ok.inj hrenders
  have hlinked : linkedRound.world.disk.read ((plainSettings false).indexPath (.ofString "a")) =
      .ok (Text.encode "export * from './Y';\n") := by decide +kernel
  rw [hdisk,hlinked,← htext] at hread
  cases nested
  · exact absurd hread (by decide +kernel)
  · exact absurd hread (by decide +kernel)

end OperationHooks.Index
