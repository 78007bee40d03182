import Mathlib.Data.List.Induction
import OperationHooks.Proofs.Disk.FileTree
import OperationHooks.Proofs.Index.Parallel
/-!
Indexes written with each entry, and indexes written once at the end. Both have the same entries;
the line for nested hooks is there if an index of nested hooks was there when the index was written
last.
-/
set_option autoImplicit false

namespace OperationHooks.Index
open Effect Disk

def Settings.inMode (s : Settings) (batch : Bool) : Settings := { s with batch }

def registerAll (s : Settings) (calls : List (Path × String)) : Work Unit :=
  calls.forM fun x => register s x.1 x.2

def collect (s : Settings) (calls : List (Path × String)) : Work (List Path) := do
  registerAll s calls
  flushAll s

def entriesFor (calls : List (Path × String)) (directory : Path) : List String :=
  ((calls.filter fun x => x.1 = directory).map Prod.snd).eraseDups

section Entries

variable {calls : List (Path × String)} {directory other : Path} {baseName : String}

theorem mem_entriesFor : baseName ∈ entriesFor calls directory ↔ (directory,baseName) ∈ calls := by
  rw [entriesFor,List.mem_eraseDups,List.mem_map]
  constructor
  · rintro ⟨x,hx,rfl⟩
    obtain ⟨hx,hd⟩ := List.mem_filter.1 hx
    rwa [← of_decide_eq_true hd]
  · exact fun h => ⟨_,List.mem_filter.2 ⟨h,decide_eq_true rfl⟩,rfl⟩

theorem nodup_entriesFor (calls : List (Path × String)) (directory : Path) :
    (entriesFor calls directory).Nodup := Path.nodup_eraseDups _

end Entries

section Register

variable {s : Settings} {directory : Path} {baseName : String} {w w' : World} {stage stage' : Stage}
variable {state : State}

theorem proceed_of_advance
    (h : stage.advance s directory baseName w = some (stage',w')) (steps : Nat) :
    proceed s directory baseName (steps + 1) stage w =
      proceed s directory baseName steps stage' w' := by
  rw [proceed,h]

theorem advance_settling (s : Settings) (directory : Path) (baseName : String) (w : World) :
    Stage.settling.advance s directory baseName w = some (.releasing none,settled s directory w) :=
      rfl

theorem advance_releasing (s : Settings) (directory : Path) (baseName : String)
    (fault : Option Fault)
    (w : World) : (Stage.releasing fault).advance s directory baseName w =
      some (.ended fault,w.modify directory fun state => { state with locked := false }) := rfl

theorem proceed_releasing (s : Settings) (directory : Path) (baseName : String) (steps : Nat)
    (fault : Option Fault) (w : World) :
      proceed s directory baseName (steps + 1) (.releasing fault) w =
      (.ended fault,w.modify directory fun state => { state with locked := false }) := by
  rw [proceed_of_advance (advance_releasing s directory baseName fault w)]
  cases steps <;> rfl

theorem run_register (s : Settings) (directory : Path) (baseName : String) (w : World) :
    run (register s directory baseName) w =
      ((match (proceed s directory baseName maxSteps .waiting w).1.fault? with
        | some fault => .error fault
        | none => .ok ()),(proceed s directory baseName maxSteps .waiting w).2) := by
  unfold register
  simp only [run_bind,run_get]
  cases proceed s directory baseName maxSteps .waiting w with
  | mk stage w' =>
    simp only [run_set]
    cases stage.fault? <;> rfl

theorem advance_adding (h : w.indexes.state directory = state) :
    Stage.adding.advance s directory baseName w = match state.add? baseName with
      | none => some (.releasing none,w.note .debug (repeatedMessage baseName directory))
      | some state => some (if s.batch then .releasing none else .rendering,
          w.modify directory fun _ => state) := by
  rw [← h]
  rfl

theorem advance_rendering (h : w.indexes.state directory = state) :
    Stage.rendering.advance s directory baseName w =
      match s.formatted w.disk directory state.entries with
      | .error fault => some (.releasing (some fault),w)
      | .ok text => some (.storing text,w) := by
  subst h
  unfold Stage.advance
  cases s.formatted w.disk directory (w.indexes.state directory).entries <;> rfl

theorem advance_storing (s : Settings) (directory : Path) (baseName text : String) (w : World) :
    (Stage.storing text).advance s directory baseName w =
      match run (save (s.indexPath directory) text) w.disk with
      | (.error fault,disk) => some (.releasing (some fault),{ w with disk })
      | (.ok (),disk) => some (.settling,{ w with disk }) := by
  unfold Stage.advance
  dsimp only [run_perform]
  cases run (save (s.indexPath directory) text) w.disk with
  | mk r disk => cases r <;> rfl

inductive Registers (s : Settings) (directory : Path) (baseName : String) (w w' : World) :
    Except Fault Unit → Prop where
  | repeated : baseName ∈ (w.indexes.state directory).entries → w'.disk = w.disk →
      Table.Knows directory (w.indexes.state directory) w.indexes w'.indexes →
      Registers s directory baseName w w' (.ok ())
  | kept : baseName ∉ (w.indexes.state directory).entries → s.batch = true → w'.disk = w.disk →
      Table.Knows directory ⟨(w.indexes.state directory).entries ++ [baseName],true,false⟩
        w.indexes w'.indexes →
      Registers s directory baseName w w' (.ok ())
  | written (text : String) : baseName ∉ (w.indexes.state directory).entries → s.batch = false →
      s.formatted w.disk directory ((w.indexes.state directory).entries ++ [baseName]) = .ok text →
      Saved (s.indexPath directory) text w.disk w'.disk →
      Table.Knows directory ⟨(w.indexes.state directory).entries ++ [baseName],false,false⟩
        w.indexes w'.indexes →
      Registers s directory baseName w w' (.ok ())
  | unwritten (fault : Fault) : baseName ∉ (w.indexes.state directory).entries → s.batch = false →
      Changed Tree.Grown w.disk w'.disk →
      Table.Knows directory ⟨(w.indexes.state directory).entries ++ [baseName],true,false⟩
        w.indexes w'.indexes →
      Registers s directory baseName w w' (.error fault)

theorem registers_of_register {r : Except Fault Unit}
    (hl : (w.indexes.state directory).locked = false)
    (h : run (register s directory baseName) w = (r,w')) :
      Registers s directory baseName w w' r := by
  cases hstate : w.indexes.state directory with
  | mk entries dirty locked =>
    obtain rfl : locked = false := by rw [hstate] at hl; exact hl
    let held : World := w.modify directory fun state => { state with locked := true }
    have hheld : Table.Knows directory ⟨entries,dirty,true⟩ w.indexes held.indexes := by
      have hk := Table.knows_modify w.indexes directory fun state => { state with locked := true }
      rw [hstate] at hk
      exact hk
    have hlock : Stage.waiting.advance s directory baseName w = some (.adding,held) := by
      show (if (w.indexes.state directory).locked then none else some (Stage.adding,held)) = _
      rw [hl]
      rfl
    have hentries : (w.indexes.state directory).entries = entries := by rw [hstate]
    -- the steps are followed on their own: what `h` makes of their end is no part of them
    rw [run_register] at h
    generalize hp : proceed s directory baseName maxSteps .waiting w = ended at h
    rw [maxSteps,proceed_of_advance hlock] at hp
    by_cases hb : baseName ∈ entries
    · have hadd : Stage.adding.advance s directory baseName held =
          some (.releasing none,held.note .debug (repeatedMessage baseName directory)) := by
        rw [advance_adding hheld.self,State.add?,if_pos (List.contains_iff_mem.2 hb)]
      rw [proceed_of_advance hadd,proceed_releasing] at hp
      subst hp
      obtain ⟨rfl,rfl⟩ := Prod.mk.inj h
      exact .repeated (hentries ▸ hb) rfl (hstate ▸ hheld.modify
        fun state => { state with locked := false })
    · let added : World := held.modify directory fun _ => ⟨entries ++ [baseName],true,true⟩
      have hdisk : added.disk = w.disk := rfl
      have hadded :
          Table.Knows directory ⟨entries ++ [baseName],true,true⟩ w.indexes added.indexes :=
        hheld.modify fun _ => ⟨entries ++ [baseName],true,true⟩
      have hreleased := hadded.modify fun state => { state with locked := false }
      have hadd : Stage.adding.advance s directory baseName held =
          some (if s.batch then .releasing none else .rendering,added) := by
        rw [advance_adding hheld.self,State.add?,if_neg (by simpa using hb)]
      rw [proceed_of_advance hadd] at hp
      cases hbatch : s.batch with
      | true =>
        rw [if_pos hbatch,proceed_releasing] at hp
        subst hp
        obtain ⟨rfl,rfl⟩ := Prod.mk.inj h
        exact .kept (hentries ▸ hb) hbatch rfl (hentries ▸ hreleased)
      | false =>
        rw [if_neg (by simp [hbatch])] at hp
        cases hf : s.formatted w.disk directory (entries ++ [baseName]) with
        | error fault =>
          have hrender : Stage.rendering.advance s directory baseName added =
              some (.releasing (some fault),added) := by
            rw [advance_rendering hadded.self,hdisk,hf]
          rw [proceed_of_advance hrender,proceed_releasing] at hp
          subst hp
          obtain ⟨rfl,rfl⟩ := Prod.mk.inj h
          exact .unwritten fault (hentries ▸ hb) hbatch ⟨rfl,.refl _⟩ (hentries ▸ hreleased)
        | ok text =>
          have hrender :
              Stage.rendering.advance s directory baseName added = some (.storing text,added) := by
            rw [advance_rendering hadded.self,hdisk,hf]
          rw [proceed_of_advance hrender] at hp
          cases hs : run (save (s.indexPath directory) text) w.disk with
          | mk result disk =>
            cases result with
            | error fault =>
              have hstore : (Stage.storing text).advance s directory baseName added =
                  some (.releasing (some fault),{ added with disk }) := by
                rw [advance_storing,hdisk,hs]
              rw [proceed_of_advance hstore,proceed_releasing] at hp
              subst hp
              obtain ⟨rfl,rfl⟩ := Prod.mk.inj h
              exact .unwritten fault (hentries ▸ hb) hbatch (grown_of_unsaved hs)
                (hentries ▸ hreleased)
            | ok u =>
              have hstore : (Stage.storing text).advance s directory baseName added =
                  some (.settling,{ added with disk }) := by
                rw [advance_storing,hdisk,hs]
              rw [proceed_of_advance hstore,
                proceed_of_advance (advance_settling s directory baseName _),
                proceed_releasing] at hp
              subst hp
              obtain ⟨rfl,rfl⟩ := Prod.mk.inj h
              exact .written text (hentries ▸ hb) hbatch (hentries ▸ hf) (saved_of_save hs)
                (hentries ▸ (hadded.modify fun state => { state with dirty := false }).modify
                  fun state => { state with locked := false })

theorem register_cases (hl : (w.indexes.state directory).locked = false)
    (h : run (register s directory baseName) w = (.ok (),w')) :
    baseName ∈ (w.indexes.state directory).entries ∧ w'.disk = w.disk ∧
      Table.Knows directory (w.indexes.state directory) w.indexes w'.indexes ∨
    baseName ∉ (w.indexes.state directory).entries ∧ s.batch = true ∧ w'.disk = w.disk ∧
      Table.Knows directory ⟨(w.indexes.state directory).entries ++ [baseName],true,false⟩
        w.indexes w'.indexes ∨
    baseName ∉ (w.indexes.state directory).entries ∧ s.batch = false ∧ (∃ text,
      s.formatted w.disk directory ((w.indexes.state directory).entries ++ [baseName]) = .ok text ∧
      Saved (s.indexPath directory) text w.disk w'.disk) ∧
      Table.Knows directory ⟨(w.indexes.state directory).entries ++ [baseName],
        false,false⟩ w.indexes
        w'.indexes := by
  cases registers_of_register hl h with
  | repeated hb hdisk hk => exact .inl ⟨hb,hdisk,hk⟩
  | kept hb hbatch hdisk hk => exact .inr (.inl ⟨hb,hbatch,hdisk,hk⟩)
  | written text hb hbatch hf hs hk => exact .inr (.inr ⟨hb,hbatch,⟨text,hf,hs⟩,hk⟩)

end Register

/-- What the table knows when registrations are over. -/
structure Recorded (s : Settings) (calls : List (Path × String)) (t : Table) : Prop where
  unlocked : ∀ directory, (t.state directory).locked = false
  entries : ∀ directory baseName, baseName ∈ (t.state directory).entries ↔
  (directory,baseName) ∈ calls
  nodup : ∀ directory, (t.state directory).entries.Nodup
  dirty : ∀ directory, (t.state directory).dirty = true ↔
    s.batch = true ∧ (t.state directory).entries ≠ []
  listed : t.map Prod.fst = (calls.map Prod.fst).eraseDups

section RegisterAll

variable {s : Settings} {calls before : List (Path × String)} {directory : Path} {baseName : String}
variable {w w' : World} {t t' : Table} {state : State}

theorem recorded_nil (s : Settings) : Recorded s [] [] := by
  have hempty : ∀ directory, Table.state [] directory = .empty := fun _ => rfl
  refine ⟨fun _ => rfl,fun directory baseName => ?_,fun directory => ?_,fun directory => ?_,rfl⟩ <;>
    simp [hempty,State.empty]

/-- One more registration. -/
theorem Recorded.knows (h : Recorded s calls t) (hk : Table.Knows directory state t t')
    (hlocked : state.locked = false) (hnodup : state.entries.Nodup)
    (hentries : ∀ x, x ∈ state.entries ↔ x ∈ (t.state directory).entries ∨ x = baseName)
    (hdirty : state.dirty = true ↔ s.batch = true ∧ state.entries ≠ []) :
    Recorded s (calls ++ [(directory,baseName)]) t' := by
  refine ⟨fun other => ?_,fun other x => ?_,fun other => ?_,fun other => ?_,?_⟩
  · by_cases ho : other = directory
    · rw [ho,hk.self,hlocked]
    · rw [hk.others other ho,h.unlocked]
  · rw [List.mem_append,List.mem_singleton,Prod.mk.injEq]
    by_cases ho : other = directory
    · rw [ho,hk.self,hentries,h.entries]
      simp
    · rw [hk.others other ho,h.entries]
      simp [ho]
  · by_cases ho : other = directory
    · rw [ho,hk.self]
      exact hnodup
    · rw [hk.others other ho]
      exact h.nodup other
  · by_cases ho : other = directory
    · rw [ho,hk.self]
      exact hdirty
    · rw [hk.others other ho]
      exact h.dirty other
  · rw [hk.listed,h.listed,List.map_append,List.eraseDups_append]
    by_cases hd : directory ∈ calls.map Prod.fst
    · rw [if_pos (List.mem_eraseDups.2 hd)]
      have hold : [directory].removeAll (calls.map Prod.fst) = [] := by
        simp only [List.removeAll,List.filter_singleton,List.elem_eq_mem,hd]
        rfl
      show _ = _ ++ ([directory].removeAll _).eraseDups
      rw [hold]
      simp
    · rw [if_neg (List.mem_eraseDups.not.2 hd)]
      have hnew : [directory].removeAll (calls.map Prod.fst) = [directory] := by
        simp only [List.removeAll,List.filter_singleton,List.elem_eq_mem,hd]
        rfl
      show _ = _ ++ ([directory].removeAll _).eraseDups
      rw [hnew]
      rfl

/-- What a registration after others does to table and disk. -/
theorem Recorded.register (h : Recorded s calls w.indexes)
    (hr : run (Index.register s directory baseName) w = (.ok (),w')) :
    Recorded s (calls ++ [(directory,baseName)]) w'.indexes ∧
      (((directory,baseName) ∈ calls ∨ s.batch = true) ∧ w'.disk = w.disk ∨
        (directory,baseName) ∉ calls ∧ s.batch = false ∧ ∃ text,
          s.formatted w.disk directory (w'.indexes.state directory).entries = .ok text ∧
          Saved (s.indexPath directory) text w.disk w'.disk) := by
  have hadd : baseName ∉ (w.indexes.state directory).entries →
      ((w.indexes.state directory).entries ++ [baseName]).Nodup := fun hb => by
    have hne : ∀ x ∈ (w.indexes.state directory).entries, x ≠ baseName :=
      fun x hx he => hb (he ▸ hx)
    simpa [List.nodup_append,h.nodup directory] using hne
  rcases register_cases (h.unlocked directory) hr with
    ⟨hb,hdisk,hk⟩ | ⟨hb,hbatch,hdisk,hk⟩ | ⟨hb,hbatch,hsaved,hk⟩
  · refine ⟨h.knows hk (h.unlocked _) (h.nodup _) (fun x => ⟨.inl,?_⟩) (h.dirty _),
      .inl ⟨.inl ((h.entries _ _).1 hb),hdisk⟩⟩
    rintro (hx | rfl)
    · exact hx
    · exact hb
  · exact ⟨h.knows hk rfl (hadd hb) (fun x => by simp) (by simp [hbatch]),.inl ⟨.inr hbatch,hdisk⟩⟩
  · rw [hk.self]
    exact ⟨h.knows hk rfl (hadd hb) (fun x => by simp) (by simp [hbatch]),
      .inr ⟨fun hc => hb ((h.entries _ _).2 hc),hbatch,hsaved⟩⟩

/-- Registrations keep to the entries, and each new one writes the index of its directory, unless
indexes are written in a batch. -/
theorem Recorded.registerAll (h : Recorded s before w.indexes)
    (hr : run (Index.registerAll s calls) w = (.ok (),w')) :
    Recorded s (before ++ calls) w'.indexes ∧ ∃ texts, Saves texts w.disk w'.disk ∧
      ∀ p, p ∈ texts.map Prod.fst ↔ s.batch = false ∧ ∃ x ∈ calls, x ∉ before ∧
      p = s.indexPath x.1 := by
  induction calls generalizing before w with
  | nil =>
    obtain ⟨-,rfl⟩ := Prod.mk.inj hr
    rw [List.append_nil]
    exact ⟨h,[],.nil _,by simp⟩
  | cons first rest ih =>
    obtain ⟨directory,baseName⟩ := first
    obtain ⟨_,w₁,hfirst,hrest⟩ := bind_eq_ok.1 hr
    obtain ⟨h₁,hdisk⟩ := h.register hfirst
    obtain ⟨h₂,texts,hsaves,htexts⟩ := ih h₁ hrest
    refine ⟨by simpa using h₂,?_⟩
    rcases hdisk with ⟨hold,hdisk⟩ | ⟨hnew,hbatch,text,-,hsaved⟩
    · refine ⟨texts,hdisk ▸ hsaves,fun p => (htexts p).trans (and_congr_right fun hbatch => ?_)⟩
      have hold : (directory,baseName) ∈ before := hold.resolve_right (by simp [hbatch])
      constructor
      · rintro ⟨x,hx,hb,he⟩
        exact ⟨x,List.mem_cons_of_mem _ hx,fun hb' => hb (List.mem_append_left _ hb'),he⟩
      · rintro ⟨x,hx,hb,he⟩
        have hne : x ≠ (directory,baseName) := by
          rintro rfl
          exact hb hold
        exact ⟨x,(List.mem_cons.1 hx).resolve_left hne,by simp [hb,hne],he⟩
    · refine ⟨(s.indexPath directory,text) :: texts,.cons hsaved hsaves,fun p => ?_⟩
      rw [List.map_cons,List.mem_cons,htexts]
      constructor
      · rintro (rfl | ⟨-,x,hx,hb,he⟩)
        · exact ⟨hbatch,(directory,baseName),List.mem_cons_self,hnew,rfl⟩
        · exact ⟨hbatch,x,List.mem_cons_of_mem _ hx,fun hb' => hb (List.mem_append_left _ hb'),he⟩
      · rintro ⟨-,x,hx,hb,rfl⟩
        by_cases hne : x = (directory,baseName)
        · exact .inl (by rw [hne])
        · exact .inr ⟨hbatch,x,(List.mem_cons.1 hx).resolve_left hne,by simp [hb,hne],rfl⟩

theorem registerAll_append (s : Settings) (calls calls' : List (Path × String)) :
    Index.registerAll s (calls ++ calls') =
      (do Index.registerAll s calls; Index.registerAll s calls') :=
  List.forM_append

end RegisterAll

section Flushes

variable {s : Settings} {directories : List Path} {w w' : World}

theorem flushes_keep {paths : List (Option Path)}
    (hd : ∀ directory ∈ directories, directory ∈ w.indexes.map Prod.fst)
    (hr : run (directories.mapM (flush s)) w = (.ok paths,w')) :
    w'.indexes.map Prod.fst = w.indexes.map Prod.fst ∧
      ∀ other, (w'.indexes.state other).entries = (w.indexes.state other).entries := by
  induction directories generalizing w paths with
  | nil =>
    rw [List.mapM_nil] at hr
    obtain ⟨-,rfl⟩ := Prod.mk.inj hr
    exact ⟨rfl,fun _ => rfl⟩
  | cons first rest ih =>
    rw [List.mapM_cons,bind_eq_ok] at hr
    obtain ⟨path,w₁,hfirst,hr⟩ := hr
    obtain ⟨others,w₂,hrest,hr⟩ := bind_eq_ok.1 hr
    obtain ⟨-,rfl⟩ := Prod.mk.inj hr
    obtain ⟨hd₁,hdrest⟩ := List.forall_mem_cons.1 hd
    have h₁ : w₁.indexes.map Prod.fst = w.indexes.map Prod.fst ∧
        ∀ other, (w₁.indexes.state other).entries = (w.indexes.state other).entries := by
      rcases flush_cases hfirst with ⟨-,rfl⟩ | ⟨-,text,disk,-,-,rfl⟩
      · refine ⟨?_,fun other => by rw [Table.state_enter]⟩
        exact (Table.map_fst_modify _ _ _).trans (if_pos hd₁)
      · exact ⟨(knows_rewritten s first disk w).listed.trans (if_pos hd₁),
          entries_rewritten s first disk w⟩
    obtain ⟨hlisted,hentries⟩ := ih (fun directory hm => h₁.1 ▸ hdrest directory hm) hrest
    exact ⟨hlisted.trans h₁.1,fun other => (hentries other).trans (h₁.2 other)⟩

inductive Flushed (s : Settings) (directory : Path) (w w' : World) :
    Except Fault (Option Path) → Prop where
  | idle : (w.indexes.state directory).dirty = false → w'.disk = w.disk →
      Table.Knows directory (w.indexes.state directory) w.indexes w'.indexes →
      Flushed s directory w w' (.ok none)
  | written (text : String) : (w.indexes.state directory).dirty = true →
      s.formatted w.disk directory (w.indexes.state directory).entries = .ok text →
      Saved (s.indexPath directory) text w.disk w'.disk →
      Table.Knows directory { w.indexes.state directory with dirty := false } w.indexes w'.indexes →
      Flushed s directory w w' (.ok (some (s.indexPath directory)))
  | unwritten (fault : Fault) : (w.indexes.state directory).dirty = true →
      Changed Tree.Grown w.disk w'.disk →
      Table.Knows directory (w.indexes.state directory) w.indexes w'.indexes →
      Flushed s directory w w' (.error fault)

theorem flushed_of_flush {directory : Path} {r : Except Fault (Option Path)}
    (h : run (flush s directory) w = (r,w')) : Flushed s directory w w' r := by
  have hentered := Table.knows_modify w.indexes directory id
  rw [run_flush] at h
  by_cases hdirty : (w.indexes.state directory).dirty = true
  · rw [if_pos hdirty] at h
    cases hf : s.formatted w.disk directory (w.indexes.state directory).entries with
    | error fault =>
      simp only [hf] at h
      obtain ⟨rfl,rfl⟩ := Prod.mk.inj h
      exact .unwritten fault hdirty ⟨rfl,.refl _⟩ hentered
    | ok text =>
      simp only [hf] at h
      cases hs : run (save (s.indexPath directory) text) w.disk with
      | mk result disk =>
        rw [hs] at h
        cases result with
        | error fault =>
          obtain ⟨rfl,rfl⟩ := Prod.mk.inj h
          exact .unwritten fault hdirty (grown_of_unsaved hs) hentered
        | ok u =>
          obtain ⟨rfl,rfl⟩ := Prod.mk.inj h
          exact .written text hdirty hf (saved_of_save hs) (knows_rewritten s directory disk w)
  · rw [if_neg hdirty] at h
    obtain ⟨rfl,rfl⟩ := Prod.mk.inj h
    exact .idle (Bool.eq_false_iff.2 hdirty) rfl hentered

/-- A flush of some directories saves the indexes of the dirty ones, one after the other, and none
of them is dirty afterwards. -/
theorem flushes_written {paths : List (Option Path)} (hnodup : directories.Nodup)
    (hr : run (directories.mapM (flush s)) w = (.ok paths,w')) :
    ∃ texts, Saves texts w.disk w'.disk ∧ paths.filterMap id = texts.map Prod.fst ∧
      texts.map Prod.fst =
        (directories.filter fun directory => (w.indexes.state directory).dirty).map s.indexPath ∧
      (∀ directory ∈ directories, (w'.indexes.state directory).dirty = false) ∧
      ∀ other, other ∉ directories → (w'.indexes.state other).dirty =
        (w.indexes.state other).dirty := by
  induction directories generalizing w paths with
  | nil =>
    rw [List.mapM_nil] at hr
    obtain ⟨hpaths,rfl⟩ := Prod.mk.inj hr
    obtain rfl := Except.ok.inj hpaths
    exact ⟨[],.nil _,rfl,rfl,by simp,fun _ _ => rfl⟩
  | cons first rest ih =>
    rw [List.mapM_cons,bind_eq_ok] at hr
    obtain ⟨path,w₁,hfirst,hr⟩ := hr
    obtain ⟨others,w₂,hrest,hr⟩ := bind_eq_ok.1 hr
    obtain ⟨hpaths,rfl⟩ := Prod.mk.inj hr
    obtain rfl := Except.ok.inj hpaths
    obtain ⟨hnew,hnrest⟩ := List.nodup_cons.1 hnodup
    obtain ⟨texts,hsaves,hwritten,htexts,hclean,hothers⟩ := ih hnrest hrest
    have hcleaned : ∀ state : State, state.dirty = false →
        Table.Knows first state w.indexes w₁.indexes →
        (rest.filter fun directory => (w₁.indexes.state directory).dirty) =
          (rest.filter fun directory => (w.indexes.state directory).dirty) ∧
        (∀ directory ∈ first :: rest, (w₂.indexes.state directory).dirty = false) ∧
        ∀ other, other ∉ first :: rest →
          (w₂.indexes.state other).dirty = (w.indexes.state other).dirty :=
            fun state hstate hk => by
      refine ⟨List.filter_congr fun directory hm => ?_,List.forall_mem_cons.2 ⟨?_,hclean⟩,
        fun other ho => ?_⟩
      · rw [hk.others directory fun he => hnew (he ▸ hm)]
      · rw [hothers first hnew,hk.self,hstate]
      · obtain ⟨hfirst',hrest'⟩ := not_or.1 (List.mem_cons.not.1 ho)
        rw [hothers other hrest',hk.others other hfirst']
    cases flushed_of_flush hfirst with
    | idle hdirty hdisk hk =>
      obtain ⟨hsame,hall,helse⟩ := hcleaned _ hdirty hk
      refine ⟨texts,hdisk ▸ hsaves,hwritten,?_,hall,helse⟩
      rw [htexts,hsame,List.filter_cons,hdirty]
      rfl
    | written text hdirty hf hs hk =>
      obtain ⟨hsame,hall,helse⟩ := hcleaned _ rfl hk
      refine ⟨(s.indexPath first,text) :: texts,.cons hs hsaves,
        congrArg (s.indexPath first :: ·) hwritten,?_,hall,helse⟩
      rw [List.map_cons,htexts,hsame,List.filter_cons,hdirty]
      rfl

theorem flushes_save {paths : List (Option Path)} (hdirty : ∀ directory ∈ directories,
      (w.indexes.state directory).dirty = true) (hnodup : directories.Nodup)
    (hr : run (directories.mapM (flush s)) w = (.ok paths,w')) :
    ∃ texts, Saves texts w.disk w'.disk ∧ texts.map Prod.fst = directories.map s.indexPath ∧
      ∀ other, other ∉ directories → (w'.indexes.state other).dirty =
        (w.indexes.state other).dirty := by
  obtain ⟨texts,hsaves,-,htexts,-,hothers⟩ := flushes_written hnodup hr
  rw [List.filter_eq_self.2 hdirty] at htexts
  exact ⟨texts,hsaves,htexts,hothers⟩

end Flushes

theorem exists_last_new {α : Type} {P : α → Prop} {xs : List α} (h : ∃ x ∈ xs, P x) :
    ∃ before x after, xs = before ++ x :: after ∧ x ∉ before ∧ P x ∧
      ∀ y ∈ after, y ∉ before ++ [x] → ¬ P y := by
  induction xs using List.reverseRecOn with
  | nil =>
    obtain ⟨x,hx,-⟩ := h
    cases hx
  | append_singleton xs z ih =>
    by_cases hz : z ∉ xs ∧ P z
    · exact ⟨xs,z,[],rfl,hz.1,hz.2,by simp⟩
    · have hold : ∃ x ∈ xs, P x := by
        obtain ⟨x,hx,hp⟩ := h
        rcases List.mem_append.1 hx with hx | hx
        · exact ⟨x,hx,hp⟩
        · rw [List.mem_singleton.1 hx] at hp
          exact ⟨z,by_contra fun hn => hz ⟨hn,hp⟩,hp⟩
      obtain ⟨before,x,after,rfl,hx,hp,hlast⟩ := ih hold
      refine ⟨before,x,after ++ [z],by simp,hx,hp,fun y hy hb hpy => ?_⟩
      rcases List.mem_append.1 hy with hy | hy
      · exact hlast y hy hb hpy
      · rw [List.mem_singleton.1 hy] at hb hpy
        have hmem : z ∈ before ++ x :: after := by_contra fun hn => hz ⟨hn,hpy⟩
        refine hlast z ((List.mem_append.1 hmem).elim (fun hm => ?_) fun hm => ?_) hb hpy
        · exact absurd (List.mem_append_left _ hm) hb
        · exact (List.mem_cons.1 hm).resolve_left fun he => hb (by simp [he])

/-- Written with each entry, the file of an index was written last for the directory `own`, when it
was known whether there was an index of nested hooks there. -/
def LastAtOnce (s : Settings) (calls : List (Path × String)) (w : World) (d : Disk)
    (directory own : Path) (nested : Bool) : Prop :=
  ∃ before baseName after w₁, calls = before ++ (own,baseName) :: after ∧ (own,baseName) ∉ before ∧
    OneFile d (s.indexPath own) (s.indexPath directory) ∧
    (∀ x ∈ after, x ∉ before ++ [(own,baseName)] →
      ¬ OneFile d (s.indexPath x.1) (s.indexPath directory)) ∧
    run (registerAll s before) w = (.ok (),w₁) ∧ w₁.disk.isFile (s.nestedIndex own) = .ok nested

/-- Written in a batch, the file of an index was written last for the directory `own`. -/
def LastInBatch (s : Settings) (calls : List (Path × String)) (w : World) (d : Disk)
    (directory own : Path) (nested : Bool) : Prop :=
  ∃ before after w₁ paths w₂, Path.sorted (calls.map Prod.fst) = before ++ own :: after ∧
    OneFile d (s.indexPath own) (s.indexPath directory) ∧
    (∀ other ∈ after, ¬ OneFile d (s.indexPath other) (s.indexPath directory)) ∧
    run (registerAll s calls) w = (.ok (),w₁) ∧ run (before.mapM (flush s)) w₁ = (.ok paths,w₂) ∧
    w₂.disk.isFile (s.nestedIndex own) = .ok nested

section Last

variable {s : Settings} {f : String → String} {calls : List (Path × String)} {directory : Path}
variable {entries : List String} {text : String} {d : Disk} {w w' : World} {t : Table}
  {paths : List Path}

theorem text_of_formatted (hf : ∀ d text, s.formatting d text = .ok (f text))
    (h : s.formatted d directory entries = .ok text) :
    ∃ nested, d.isFile (s.nestedIndex directory) = .ok nested ∧
    text = f (textOf nested entries) := by
  rw [formatted_eq] at h
  cases hn : d.isFile (s.nestedIndex directory) with
  | error fault =>
    rw [hn] at h
    cases h
  | ok nested =>
    simp only [hn,hf] at h
    exact ⟨nested,rfl,(Except.ok.inj h).symm⟩

theorem Recorded.textOf_eq (h : Recorded s calls t) (nested : Bool) :
    textOf nested (t.state directory).entries = textOf nested (entriesFor calls directory) :=
  textOf_congr
    ((List.perm_ext_iff_of_nodup (h.nodup directory) (nodup_entriesFor calls directory)).2
    fun baseName => (h.entries directory baseName).trans mem_entriesFor.symm) nested

theorem Recorded.directories (h : Recorded s calls t) :
    t.directories = Path.sorted (calls.map Prod.fst) := by
  rw [Table.directories,h.listed,Path.sorted_eraseDups]

theorem collect_atOnce (hw : w.indexes = []) (hbatch : s.batch = false)
    (hr : run (collect s calls) w = (.ok paths,w')) :
    ∃ w₁, run (registerAll s calls) w = (.ok (),w₁) ∧ Recorded s calls w₁.indexes ∧
    w'.disk = w₁.disk := by
  obtain ⟨_,w₁,hregister,hflush⟩ := bind_eq_ok.1 hr
  obtain ⟨hrecorded,-⟩ := (hw ▸ recorded_nil s : Recorded s [] w.indexes).registerAll hregister
  obtain ⟨w₂,hidle,hdisk⟩ := run_flushAll_idle s (w := w₁) fun directory =>
    Bool.eq_false_iff.2 fun hd => by simpa [hbatch] using (hrecorded.dirty directory).1 hd
  obtain ⟨-,rfl⟩ := Prod.mk.inj (hflush.symm.trans hidle)
  exact ⟨w₁,hregister,hrecorded,hdisk⟩

theorem exists_lastAtOnce (hf : ∀ d text, s.formatting d text = .ok (f text)) (hw : w.indexes = [])
    (hbatch : s.batch = false) (hr : run (collect s calls) w = (.ok paths,w'))
    (hd : directory ∈ calls.map Prod.fst) : ∃ own nested,
      LastAtOnce s calls w w'.disk directory own nested ∧
      w'.disk.read (s.indexPath directory) =
        .ok (Text.encode (f (textOf nested (entriesFor calls own)))) := by
  have hempty : Recorded s [] w.indexes := hw ▸ recorded_nil s
  obtain ⟨w₁,hregister,hrecorded,hdisk⟩ := collect_atOnce hw hbatch hr
  rw [hdisk]
  have hwritten : ∃ x ∈ calls, OneFile w₁.disk (s.indexPath x.1) (s.indexPath directory) := by
    obtain ⟨-,texts,hsaves,htexts⟩ := hempty.registerAll hregister
    obtain ⟨x,hx,rfl⟩ := List.mem_map.1 hd
    obtain ⟨y,hy,he⟩ := List.mem_map.1 ((htexts (s.indexPath x.1)).2 ⟨hbatch,x,hx,by simp,rfl⟩)
    obtain ⟨c,hc⟩ := hsaves.leadsTo hy
    exact ⟨x,hx,c,he ▸ hc,he ▸ hc⟩
  obtain ⟨before,⟨own,baseName⟩,after,rfl,hnew,hone,hlast⟩ := exists_last_new hwritten
  rw [registerAll_append] at hregister
  obtain ⟨_,w₂,hbefore,hregister⟩ := bind_eq_ok.1 hregister
  obtain ⟨_,w₃,hown,hafter⟩ := bind_eq_ok.1 hregister
  obtain ⟨hrecorded₂,-⟩ := hempty.registerAll hbefore
  obtain ⟨hrecorded₃,hown⟩ := hrecorded₂.register hown
  obtain ⟨-,texts,hsaves,htexts⟩ := hrecorded₃.registerAll hafter
  rcases hown with ⟨hold | hb,-⟩ | ⟨-,-,text,hformatted,hsaved⟩
  · exact absurd hold hnew
  · rw [hbatch] at hb
    cases hb
  · obtain ⟨nested,hnested,rfl⟩ := text_of_formatted hf hformatted
    refine ⟨own,nested,⟨before,baseName,after,w₂,rfl,hnew,hone,hlast,hbefore,hnested⟩,?_⟩
    have hlater : ∀ x ∈ texts, ¬ OneFile w₁.disk x.1 (s.indexPath directory) := fun x hx => by
      obtain ⟨-,y,hy,hb,he⟩ := (htexts x.1).1 (List.mem_map.2 ⟨x,hx,rfl⟩)
      rw [he]
      exact hlast y hy hb
    have hentries : textOf nested (w₃.indexes.state own).entries =
        textOf nested (entriesFor (before ++ (own,baseName) :: after) own) := by
      refine textOf_congr
        ((List.perm_ext_iff_of_nodup (hrecorded₃.nodup own) (nodup_entriesFor _ _)).2
        fun x => ?_) nested
      rw [hrecorded₃.entries,mem_entriesFor]
      constructor
      · intro hx
        rw [List.append_cons]
        exact List.mem_append_left _ hx
      · intro hx
        rw [List.append_cons] at hx
        exact (List.mem_append.1 hx).elim id fun hx => by_contra fun hb => hlast _ hx hb hone
    rw [← hentries]
    exact Saves.read_of_last hsaved hsaves hone hlater

theorem exists_lastInBatch (hf : ∀ d text, s.formatting d text = .ok (f text)) (hw : w.indexes = [])
    (hbatch : s.batch = true) (hr : run (collect s calls) w = (.ok paths,w'))
    (hd : directory ∈ calls.map Prod.fst) : ∃ own nested,
      LastInBatch s calls w w'.disk directory own nested ∧
      w'.disk.read (s.indexPath directory) =
        .ok (Text.encode (f (textOf nested (entriesFor calls own)))) := by
  obtain ⟨_,w₁,hregister,hflush⟩ := bind_eq_ok.1 hr
  have hrecorded : Recorded s calls w₁.indexes :=
    ((hw ▸ recorded_nil s : Recorded s [] w.indexes).registerAll hregister).1
  rw [run_flushAll,hrecorded.directories] at hflush
  cases hall : run ((Path.sorted (calls.map Prod.fst)).mapM (flush s)) w₁ with
  | mk result w₂ =>
    rw [hall] at hflush
    cases result with
    | error fault => cases hflush
    | ok flushed =>
      obtain ⟨-,rfl⟩ := Prod.mk.inj hflush
      have hdirty : ∀ directory ∈ Path.sorted (calls.map Prod.fst),
          (w₁.indexes.state directory).dirty = true := fun directory hm => by
        obtain ⟨x,hx,rfl⟩ := List.mem_map.1 (Path.mem_sorted.1 hm)
        exact (hrecorded.dirty x.1).2 ⟨hbatch,List.ne_nil_of_mem ((hrecorded.entries x.1 x.2).2 hx)⟩
      have hnodup := Path.nodup_sorted (calls.map Prod.fst)
      have hlisted : ∀ directory ∈ Path.sorted (calls.map Prod.fst),
          directory ∈ w₁.indexes.map Prod.fst := fun directory hm => by
        rw [hrecorded.listed,List.mem_eraseDups]
        exact Path.mem_sorted.1 hm
      have hwritten : ∃ other ∈ Path.sorted (calls.map Prod.fst),
          OneFile w₂.disk (s.indexPath other) (s.indexPath directory) := by
        obtain ⟨texts,hsaves,htexts,-⟩ := flushes_save hdirty hnodup hall
        have hm : directory ∈ Path.sorted (calls.map Prod.fst) := Path.mem_sorted.2 hd
        obtain ⟨y,hy,he⟩ := List.mem_map.1 (htexts ▸ List.mem_map_of_mem hm)
        obtain ⟨c,hc⟩ := hsaves.leadsTo hy
        exact ⟨directory,hm,c,he ▸ hc,he ▸ hc⟩
      obtain ⟨before,own,after,hsorted,hnew,hone,hlast⟩ := exists_last_new hwritten
      rw [hsorted] at hdirty hnodup hlisted hall
      rw [List.mapM_append] at hall
      obtain ⟨paths₁,w₃,hbefore,hall⟩ := bind_eq_ok.1 hall
      obtain ⟨paths₂,w₄,hrest,hall⟩ := bind_eq_ok.1 hall
      obtain ⟨-,rfl⟩ := Prod.mk.inj hall
      rw [List.mapM_cons] at hrest
      obtain ⟨path,w₅,hown,hrest⟩ := bind_eq_ok.1 hrest
      obtain ⟨paths₃,w₆,hafter,hrest⟩ := bind_eq_ok.1 hrest
      obtain ⟨-,rfl⟩ := Prod.mk.inj hrest
      obtain ⟨hdirty₁,hdirty₂⟩ := List.forall_mem_append.1 hdirty
      obtain ⟨hdirty₂,hdirty₃⟩ := List.forall_mem_cons.1 hdirty₂
      obtain ⟨hnodup₁,hnodup₂,hapart⟩ := List.nodup_append.1 hnodup
      obtain ⟨hown₂,hnodup₂⟩ := List.nodup_cons.1 hnodup₂
      obtain ⟨-,-,-,hothers⟩ := flushes_save hdirty₁ hnodup₁ hbefore
      obtain ⟨-,hentries⟩ := flushes_keep (List.forall_mem_append.1 hlisted).1 hbefore
      rcases flush_cases hown with ⟨hclean,-⟩ | ⟨-,text,disk,hformatted,hs,rfl⟩
      · rw [hothers own hnew,hdirty₂] at hclean
        cases hclean
      · have hk := knows_rewritten s own disk w₃
        obtain ⟨texts,hsaves,htexts,-⟩ := flushes_save (fun other hm => by
          rw [hk.others other fun he => hown₂ (he ▸ hm),hothers other fun hm' =>
            hapart other hm' other (List.mem_cons_of_mem _ hm) rfl]
          exact hdirty₃ other hm) hnodup₂ hafter
        rw [hentries] at hformatted
        obtain ⟨nested,hnested,rfl⟩ := text_of_formatted hf hformatted
        have hlast :
            ∀ other ∈ after, ¬ OneFile w₆.disk (s.indexPath other) (s.indexPath directory) := by
          refine fun other hm => hlast other hm fun hb => ?_
          rcases List.mem_append.1 hb with hb | hb
          · exact hapart other hb other (List.mem_cons_of_mem _ hm) rfl
          · exact hown₂ (List.mem_singleton.1 hb ▸ hm)
        have hlater : ∀ x ∈ texts, ¬ OneFile w₆.disk x.1 (s.indexPath directory) := fun x hx => by
          obtain ⟨other,hm,he⟩ := List.mem_map.1 (htexts ▸ List.mem_map_of_mem hx)
          rw [← he]
          exact hlast other hm
        refine ⟨own,nested,⟨before,after,w₁,paths₁,w₃,hsorted,hone,hlast,hregister,hbefore,hnested⟩,
          ?_⟩
        rw [← hrecorded.textOf_eq]
        exact Saves.read_of_last (saved_of_save hs) hsaves hone hlater

theorem written_collect (hw : w.indexes = []) (hr : run (collect s calls) w = (.ok paths,w')) :
    written s w'.indexes = (Path.sorted (calls.map Prod.fst)).map s.indexPath := by
  obtain ⟨_,w₁,hregister,hflush⟩ := bind_eq_ok.1 hr
  have hrecorded : Recorded s calls w₁.indexes :=
    ((hw ▸ recorded_nil s : Recorded s [] w.indexes).registerAll hregister).1
  rw [run_flushAll] at hflush
  cases hall : run (w₁.indexes.directories.mapM (flush s)) w₁ with
  | mk result w₂ =>
    rw [hall] at hflush
    cases result with
    | error fault => cases hflush
    | ok flushed =>
      obtain ⟨-,rfl⟩ := Prod.mk.inj hflush
      obtain ⟨hlisted,hentries⟩ := flushes_keep (fun directory hm => Path.mem_sorted.1 hm) hall
      have hdirectories : w₂.indexes.directories = Path.sorted (calls.map Prod.fst) := by
        rw [Table.directories,hlisted]
        exact hrecorded.directories
      rw [written,hdirectories,List.filter_eq_self.2]
      intro directory hm
      obtain ⟨x,hx,rfl⟩ := List.mem_map.1 (Path.mem_sorted.1 hm)
      rw [hentries]
      simpa using List.ne_nil_of_mem ((hrecorded.entries x.1 x.2).2 hx)

end Last

def NestedBefore (s : Settings) (calls : List (Path × String)) (directory : Path) : Prop :=
  ∃ before baseName after, calls = before ++ (directory,baseName) :: after ∧
    (directory,baseName) ∉ before ∧ directory / s.nested ∈ before.map Prod.fst

/-- All directories are spelled alike: without dots, and from one anchor. -/
structure SpelledAlike (s : Settings) (calls : List (Path × String)) : Prop where
  fileName : Path.IsPart s.fileName
  fileName_up : s.fileName ≠ ".."
  nested : Path.IsPart s.nested
  nested_up : s.nested ≠ ".."
  plain : ∀ x ∈ calls, x.1.Plain ∧ ".." ∉ x.1.parts
  anchor : ∀ x ∈ calls, ∀ y ∈ calls, x.1.anchor = y.1.anchor

section Tree

variable {s : Settings} {calls : List (Path × String)} {directory own : Path} {nested : Bool}
variable {texts : List (Path × String)} {d d' : Disk} {p q : Path} {w : World}

theorem placeOf_plain (hp : p.Plain) (hup : ".." ∉ p.parts) (d : Disk) :
    placeOf d p = d.startOf p ++ p.parts := lexical_names _ hp.dotless hup

theorem eq_of_placeOf (hp : p.Plain) (hup : ".." ∉ p.parts) (hq : q.Plain) (huq : ".." ∉ q.parts)
    (ha : p.anchor = q.anchor) (h : placeOf d p = placeOf d q) : p = q := by
  have hstart : d.startOf p = d.startOf q := by
    rw [startOf,startOf,Path.isAbsolute,Path.isAbsolute,ha]
  rw [placeOf_plain hp hup,placeOf_plain hq huq,hstart] at h
  obtain ⟨a,xs⟩ := p
  obtain ⟨b,ys⟩ := q
  obtain rfl : a = b := ha
  obtain rfl : xs = ys := List.append_cancel_left h
  rfl

theorem plain_childOf {name : String} (hp : p.Plain) (hn : Path.IsPart name) :
    (childOf p name).Plain :=
  fun part hm => (List.mem_append.1 hm).elim (hp part) fun hm => List.mem_singleton.1 hm ▸ hn

theorem up_childOf {name : String} (hup : ".." ∉ p.parts) (hn : name ≠ "..") :
    ".." ∉ (childOf p name).parts := fun hm => (List.mem_append.1 hm).elim hup
      fun hm => hn (List.mem_singleton.1 hm).symm

theorem lessOrEqual_childOf (p : Path) (name : String) :
    Path.lessOrEqual (childOf p name) p = false := by
  have hkey : (childOf p name).sortKey = p.sortKey ++ [name] := by
    obtain ⟨anchor,parts⟩ := p
    cases anchor <;> rfl
  have hlt : p.sortKey ++ [] < p.sortKey ++ [name] := List.append_left_lt (List.nil_lt_cons name [])
  rw [List.append_nil] at hlt
  simpa [Path.lessOrEqual,hkey] using hlt

theorem isFile_of_saves (ht : IsFileTree d) (hup : q.Upright) (hdot : q.Dotless)
    (h : Saves texts d d')
    (hq : d'.isFile q = .ok true) :
    d.isFile q = .ok true ∨ ∃ x ∈ texts, placeOf d x.1 = placeOf d q := by
  obtain ⟨hhere,hfilled⟩ := h.filled
  have hl' : LinkFree d'.tree := fun r target hr => ht.linkFree r target (hfilled.links r target hr)
  obtain ⟨c,bytes,executable,hw⟩ := isFile_eq_true.1 hq
  obtain rfl : c = placeOf d q := (place_of_walk hl' hw).trans (placeOf_eq hhere q)
  have hget := get?_of_walk hw
  rcases h.get?_file hget with hold | ⟨x,hx,bytes',executable',hw'⟩
  · refine .inl (isFile_eq_true.2 ⟨placeOf d q,bytes,executable,?_⟩)
    rw [← hw]
    refine (walk_upright ht.linkFree hl' hhere hup hdot (fun r hr => ?_) true).symm
    by_cases he : r = placeOf d q
    · rw [he,hget,hold]
    · have hdir := ht.rooted _ bytes executable hold r (Tree.isBelow_iff.2 ⟨hr,he⟩)
      obtain ⟨e,hr',hlike⟩ := hfilled.kept r _ hdir
      cases hlike
      rw [hr',hdir]
  · exact .inr ⟨x,hx,((place_of_walk hl' hw').trans (placeOf_eq hhere x.1)).symm⟩

theorem upright_of_plain (hup : ".." ∉ p.parts) : p.Upright := ⟨0,p.parts,rfl,hup⟩

namespace SpelledAlike

theorem eq_of_place (h : SpelledAlike s calls) (hp : p.Plain) (hup : ".." ∉ p.parts) (hq : q.Plain)
    (huq : ".." ∉ q.parts) (ha : p.anchor = q.anchor)
    (he : placeOf d (s.indexPath p) = placeOf d (s.indexPath q)) : p = q := by
  rw [Settings.indexPath,Settings.indexPath,div_part _ h.fileName,div_part _ h.fileName,
    placeOf_childOf d _ h.fileName.2.1 h.fileName_up,
      placeOf_childOf d _ h.fileName.2.1 h.fileName_up] at he
  exact eq_of_placeOf hp hup hq huq ha (List.append_cancel_right he)

theorem eq_of_oneFile (h : SpelledAlike s calls) (hl : LinkFree d.tree)
    (hd : directory ∈ calls.map Prod.fst)
    (hown : own ∈ calls.map Prod.fst) (hone : OneFile d (s.indexPath own) (s.indexPath directory)) :
    own = directory := by
  obtain ⟨x,hx,rfl⟩ := List.mem_map.1 hd
  obtain ⟨y,hy,rfl⟩ := List.mem_map.1 hown
  obtain ⟨c,⟨_,_,hw⟩,_,_,hw'⟩ := hone
  have hplace : c = placeOf d (s.indexPath y.1) := place_of_walk hl hw
  have hplace' : c = placeOf d (s.indexPath x.1) := place_of_walk hl hw'
  exact h.eq_of_place (h.plain y hy).1 (h.plain y hy).2 (h.plain x hx).1 (h.plain x hx).2
    (h.anchor y hy x hx) (hplace.symm.trans hplace')

theorem nested_iff (h : SpelledAlike s calls) (ht : IsFileTree d)
    (hd : directory ∈ calls.map Prod.fst)
    (hs : Saves texts d d')
    (htexts : ∀ p ∈ texts.map Prod.fst, ∃ other ∈ calls.map Prod.fst, p = s.indexPath other) :
    d'.isFile (s.nestedIndex directory) = .ok true ↔ d.isFile (s.nestedIndex directory) = .ok true ∨
      s.indexPath (directory / s.nested) ∈ texts.map Prod.fst := by
  obtain ⟨x,hx,rfl⟩ := List.mem_map.1 hd
  have hpath : s.nestedIndex x.1 = s.indexPath (childOf x.1 s.nested) := by
    rw [Settings.nestedIndex,Settings.indexPath,div_part _ h.nested]
  have hplain := plain_childOf (h.plain x hx).1 h.nested
  have hup := up_childOf (h.plain x hx).2 h.nested_up
  rw [hpath,div_part _ h.nested]
  constructor
  · intro hfile
    have hindex : s.indexPath (childOf x.1 s.nested) = childOf (childOf x.1 s.nested) s.fileName :=
      div_part _ h.fileName
    refine (isFile_of_saves ht ?_ ?_ hs hfile).imp_right fun hsaved => ?_
    · rw [hindex]
      exact upright_of_plain (up_childOf hup h.fileName_up)
    · rw [hindex]
      exact (plain_childOf hplain h.fileName).dotless
    · obtain ⟨y,hy,he⟩ := hsaved
      have hym := List.mem_map_of_mem (f := Prod.fst) hy
      obtain ⟨other,hother,hyo⟩ := htexts _ hym
      obtain ⟨z,hz,rfl⟩ := List.mem_map.1 hother
      rw [hyo] at he hym
      rw [← h.eq_of_place (h.plain z hz).1 (h.plain z hz).2 hplain hup (h.anchor z hz x hx) he]
      exact hym
  · rintro (hfile | hm)
    · obtain ⟨c,hc⟩ := isFile_eq_true.1 hfile
      exact isFile_eq_true.2 ⟨c,hc.filled hs.filled⟩
    · obtain ⟨y,hy,he⟩ := List.mem_map.1 hm
      rw [← he]
      exact isFile_eq_true.2 (hs.leadsTo hy)

end SpelledAlike

theorem mem_of_splits {before before' after after' : List (Path × String)}
    {baseName baseName' : String}
    (he : before ++ (directory,baseName) :: after = before' ++ (directory,baseName') :: after')
    (hnew : (directory,baseName') ∉ before')
    (hlast : (directory,baseName') ∈ after →
      (directory,baseName') ∈ before ++ [(directory,baseName)]) :
    ∀ x ∈ before', x ∈ before := by
  rcases List.append_eq_append_iff.1 he with ⟨between,hbefore,hafter⟩ | ⟨between,hbefore,-⟩
  · cases between with
    | nil => simp [hbefore]
    | cons first between =>
      obtain ⟨rfl,rfl⟩ := List.cons.inj hafter
      refine absurd ?_ hnew
      rw [hbefore,List.append_cons]
      exact List.mem_append_left _ (hlast (by simp))
  · intro x hx
    rw [hbefore]
    exact List.mem_append_left _ hx

/-- Without links an index written with each entry was written last for its own directory, and it
has the line for nested hooks if they had an index before, or got an entry before the last new one.
-/
theorem LastAtOnce.of_tree (h : LastAtOnce s calls w d directory own nested) (hw : w.indexes = [])
    (hbatch : s.batch = false) (ht : IsFileTree w.disk) (hs : SpelledAlike s calls)
    (hl : LinkFree d.tree)
    (hd : directory ∈ calls.map Prod.fst) : own = directory ∧ (nested = true ↔
      w.disk.isFile (s.nestedIndex directory) = .ok true ∨ NestedBefore s calls directory) := by
  obtain ⟨before,baseName,after,w₁,hcalls,hnew,hone,hlast,hrun,hnested⟩ := h
  obtain rfl : own = directory := hs.eq_of_oneFile hl hd (by simp [hcalls]) hone
  refine ⟨rfl,?_⟩
  obtain ⟨-,texts,hsaves,htexts⟩ := (hw ▸ recorded_nil s : Recorded s [] w.indexes).registerAll hrun
  have hsub : ∀ x ∈ before, x ∈ calls := fun x hx => by
    rw [hcalls]
    exact List.mem_append_left _ hx
  have hiff := hs.nested_iff ht hd hsaves fun p hp => by
    obtain ⟨-,x,hx,-,he⟩ := (htexts p).1 hp
    exact ⟨x.1,List.mem_map_of_mem (hsub x hx),he⟩
  have hanswer : nested = true ↔ w₁.disk.isFile (s.nestedIndex own) = .ok true := by
    rw [hnested]
    simp
  rw [hanswer,hiff]
  refine or_congr_right ⟨fun hm => ?_,?_⟩
  · obtain ⟨-,x,hx,-,he⟩ := (htexts _).1 hm
    obtain ⟨y,hy,rfl⟩ := List.mem_map.1 hd
    have hplain := hs.plain x (hsub x hx)
    have hx' : childOf y.1 s.nested = x.1 := by
      refine hs.eq_of_place (d := d) (plain_childOf (hs.plain y hy).1 hs.nested)
        (up_childOf (hs.plain y hy).2 hs.nested_up) hplain.1 hplain.2
          (hs.anchor y hy x (hsub x hx)) ?_
      rw [← div_part _ hs.nested,he]
    refine ⟨before,baseName,after,hcalls,hnew,?_⟩
    rw [div_part _ hs.nested,hx']
    exact List.mem_map_of_mem hx
  · rintro ⟨before',baseName',after',hcalls',hnew',hmem⟩
    obtain ⟨x,hx,he⟩ := List.mem_map.1 hmem
    have hx' := mem_of_splits (hcalls.symm.trans hcalls') hnew' (fun hm => by_contra fun hb =>
      hlast _ hm hb hone) x hx
    exact (htexts _).2 ⟨hbatch,x,hx',by simp,by rw [he]⟩

theorem LastInBatch.of_tree (h : LastInBatch s calls w d directory own nested) (hw : w.indexes = [])
    (hbatch : s.batch = true) (ht : IsFileTree w.disk) (hs : SpelledAlike s calls)
    (hl : LinkFree d.tree)
    (hd : directory ∈ calls.map Prod.fst) :
    own = directory ∧ (nested = true ↔ w.disk.isFile (s.nestedIndex directory) = .ok true) := by
  obtain ⟨before,after,w₁,paths,w₂,hsorted,hone,-,hregister,hrun,hnested⟩ := h
  have hsub : ∀ other ∈ before ++ own :: after, other ∈ calls.map Prod.fst := fun other hm =>
    Path.mem_sorted.1 (hsorted ▸ hm)
  obtain rfl : own = directory := hs.eq_of_oneFile hl hd (hsub own (by simp)) hone
  refine ⟨rfl,?_⟩
  obtain ⟨hrecorded,texts₁,hsaves₁,htexts₁⟩ :=
    (hw ▸ recorded_nil s : Recorded s [] w.indexes).registerAll hregister
  have hdisk : w₁.disk = w.disk := by
    cases texts₁ with
    | nil => exact hsaves₁.eq_of_nil
    | cons x rest =>
      obtain ⟨hb,-⟩ := (htexts₁ x.1).1 List.mem_cons_self
      rw [hbatch] at hb
      cases hb
  have hnodup := Path.nodup_sorted (calls.map Prod.fst)
  rw [hsorted] at hnodup
  obtain ⟨texts,hsaves,htexts,-⟩ := flushes_save (fun other hm => by
    obtain ⟨x,hx,rfl⟩ := List.mem_map.1 (hsub other (List.mem_append_left _ hm))
    exact (hrecorded.dirty x.1).2 ⟨hbatch,List.ne_nil_of_mem ((hrecorded.entries x.1 x.2).2 hx)⟩)
    (List.nodup_append.1 hnodup).1 hrun
  rw [hdisk] at hsaves
  have hiff := hs.nested_iff ht hd hsaves fun p hp => by
    obtain ⟨other,hm,rfl⟩ := List.mem_map.1 (htexts ▸ hp)
    exact ⟨other,hsub other (List.mem_append_left _ hm),rfl⟩
  have hanswer : nested = true ↔ w₂.disk.isFile (s.nestedIndex own) = .ok true := by
    rw [hnested]
    simp
  rw [hanswer,hiff]
  refine or_iff_left fun hsaved => ?_
  obtain ⟨other,hm,he⟩ := List.mem_map.1 (htexts ▸ hsaved)
  obtain ⟨y,hy,rfl⟩ := List.mem_map.1 hd
  obtain ⟨x,hx,rfl⟩ := List.mem_map.1 (hsub other (List.mem_append_left _ hm))
  have hbelow : x.1 = childOf y.1 s.nested := by
    refine hs.eq_of_place (d := d) (hs.plain x hx).1 (hs.plain x hx).2
      (plain_childOf (hs.plain y hy).1 hs.nested) (up_childOf (hs.plain y hy).2 hs.nested_up)
      (hs.anchor x hx y hy) ?_
    rw [he,div_part _ hs.nested]
  have hpairwise := Path.pairwise_sorted (calls.map Prod.fst)
  rw [hsorted] at hpairwise
  have hbefore := (List.pairwise_append.1 hpairwise).2.2 x.1 hm y.1 List.mem_cons_self
  rw [hbelow,lessOrEqual_childOf] at hbefore
  cases hbefore

end Tree

section Modes

variable {s : Settings} {f : String → String} {calls : List (Path × String)} {w w₁ w₂ : World}
variable {paths paths' : List Path}

theorem linkFree_collect (hw : w.indexes = []) (hl : LinkFree w.disk.tree) {w' : World}
    (hr : run (collect s calls) w = (.ok paths,w')) : LinkFree w'.disk.tree := by
  have hfilled : ∀ {d d' : Disk}, Changed Tree.Filled d d' → LinkFree d.tree → LinkFree d'.tree :=
    fun h hl q target hq => hl q target (h.2.links q target hq)
  obtain ⟨_,w₁,hregister,hflush⟩ := bind_eq_ok.1 hr
  obtain ⟨-,texts,hsaves,-⟩ := (hw ▸ recorded_nil s : Recorded s [] w.indexes).registerAll hregister
  have hstep : ∀ directory ∈ w₁.indexes.directories, ∀ text d d', LinkFree d.tree →
      Saved (s.indexPath directory) text d d' → LinkFree d'.tree :=
    fun _ _ _ _ _ hl hs => hfilled hs.filled hl
  exact disk_of_flushAll hstep hflush (hfilled hsaves.filled hl)

/-- Both ways all directories have an index. Two indexes are the same if what was written last was
made the same; without links the line for nested hooks tells them apart if a new entry was
registered for the directory after one for its nested hooks, which had no index before. -/
theorem modes_agree_iff (hf : ∀ d text, s.formatting d text = .ok (f text)) (hw : w.indexes = [])
    (h₁ : run (collect (s.inMode false) calls) w = (.ok paths,w₁))
    (h₂ : run (collect (s.inMode true) calls) w = (.ok paths',w₂)) :
    written (s.inMode false) w₁.indexes = written (s.inMode true) w₂.indexes ∧
    (∀ directory ∈ calls.map Prod.fst, ∃ own nested own' nested',
      LastAtOnce (s.inMode false) calls w w₁.disk directory own nested ∧
      LastInBatch (s.inMode true) calls w w₂.disk directory own' nested' ∧
      (w₁.disk.read (s.indexPath directory) = w₂.disk.read (s.indexPath directory) ↔
        f (textOf nested (entriesFor calls own)) = f (textOf nested' (entriesFor calls own')))) ∧
    (IsFileTree w.disk → SpelledAlike s calls → ∀ directory ∈ calls.map Prod.fst,
      (w₁.disk.read (s.indexPath directory) = w₂.disk.read (s.indexPath directory) ↔
        w.disk.isFile (s.nestedIndex directory) = .ok true ∨ ¬ NestedBefore s calls directory ∨
          f (textOf true (entriesFor calls directory)) =
            f (textOf false (entriesFor calls directory)))) := by
  have hlast : ∀ directory ∈ calls.map Prod.fst, ∃ own nested own' nested',
      LastAtOnce (s.inMode false) calls w w₁.disk directory own nested ∧
      LastInBatch (s.inMode true) calls w w₂.disk directory own' nested' ∧
      (w₁.disk.read (s.indexPath directory) = w₂.disk.read (s.indexPath directory) ↔
        f (textOf nested (entriesFor calls own)) = f (textOf nested' (entriesFor calls own'))) := by
    intro directory hd
    obtain ⟨own,nested,hlast,hread⟩ := exists_lastAtOnce (s := s.inMode false) hf hw rfl h₁ hd
    obtain ⟨own',nested',hlast',hread'⟩ := exists_lastInBatch (s := s.inMode true) hf hw rfl h₂ hd
    refine ⟨own,nested,own',nested',hlast,hlast',?_⟩
    have hread : w₁.disk.read (s.indexPath directory) = _ := hread
    have hread' : w₂.disk.read (s.indexPath directory) = _ := hread'
    rw [hread,hread']
    exact ⟨fun he => Text.encode_injective (Except.ok.inj he),fun he => by rw [he]⟩
  refine ⟨(written_collect hw h₁).trans (written_collect hw h₂).symm,hlast,
    fun ht hs directory hd => ?_⟩
  obtain ⟨own,nested,own',nested',hlast,hlast',hiff⟩ := hlast directory hd
  have hspelled : ∀ batch, SpelledAlike (s.inMode batch) calls :=
    fun _ => ⟨hs.1,hs.2,hs.3,hs.4,hs.5,hs.6⟩
  obtain ⟨hown,hnested⟩ :=
    hlast.of_tree hw rfl ht (hspelled false) (linkFree_collect hw ht.linkFree h₁) hd
  obtain ⟨hown',hnested'⟩ :=
    hlast'.of_tree hw rfl ht (hspelled true) (linkFree_collect hw ht.linkFree h₂) hd
  have hnested : nested = true ↔
      w.disk.isFile (s.nestedIndex directory) = .ok true ∨ NestedBefore s calls directory := hnested
  have hnested' : nested' = true ↔ w.disk.isFile (s.nestedIndex directory) = .ok true := hnested'
  rw [hiff,hown,hown']
  by_cases hthere : w.disk.isFile (s.nestedIndex directory) = .ok true
  · rw [hnested.2 (.inl hthere),hnested'.2 hthere]
    simp [hthere]
  · have hfalse : nested' = false := Bool.eq_false_iff.2 fun h => hthere (hnested'.1 h)
    by_cases hbefore : NestedBefore s calls directory
    · rw [hfalse,hnested.2 (.inr hbefore)]
      simp [hthere,hbefore]
    · have hfalse' : nested = false := Bool.eq_false_iff.2 fun h =>
        (hnested.1 h).elim hthere hbefore
      rw [hfalse,hfalse']
      simp [hbefore]

end Modes

theorem exists_collect {s : Settings} {calls : List (Path × String)}
    {directories : List Path} {w : World}
    (hw : w.indexes = []) (hd : Path.sorted (calls.map Prod.fst) = directories)
    (h : (run (do registerAll s calls; directories.mapM (flush s)) w).1.isOk = true) :
    ∃ paths, run (collect s calls) w =
      (.ok paths,(run (do registerAll s calls; directories.mapM (flush s)) w).2) := by
  unfold collect
  rw [run_bind] at h ⊢
  rw [run_bind]
  cases hr : run (registerAll s calls) w with
  | mk result w₁ =>
    rw [hr] at h
    cases result with
    | error fault => cases h
    | ok u =>
      have hrecorded : Recorded s calls w₁.indexes :=
        ((hw ▸ recorded_nil s : Recorded s [] w.indexes).registerAll hr).1
      dsimp only at h ⊢
      rw [run_flushAll,hrecorded.directories,hd]
      cases hf : run (directories.mapM (flush s)) w₁ with
      | mk result w₂ =>
        rw [hf] at h
        cases result with
        | error fault => cases h
        | ok paths => exact ⟨_,rfl⟩

def nestedFirst : List (Path × String) := [(.ofString "a/hooks","X"),(.ofString "a","Y")]

theorem plain_nestedFirst : ∀ x ∈ nestedFirst, x.1.Plain ∧ ".." ∉ x.1.parts :=
  List.forall_mem_cons.2 ⟨⟨Path.plain_ofString _,by decide +kernel⟩,
    List.forall_mem_cons.2 ⟨⟨Path.plain_ofString _,by decide +kernel⟩,by simp⟩⟩

theorem sorted_nestedFirst :
    Path.sorted (nestedFirst.map Prod.fst) = [.ofString "a",.ofString "a/hooks"] := by
  have hplain : ∀ p ∈ nestedFirst.map Prod.fst, p.Plain := fun p hp => by
    obtain ⟨x,hx,rfl⟩ := List.mem_map.1 hp
    exact (plain_nestedFirst x hx).1
  have hsame : ∀ p, p ∈ nestedFirst.map Prod.fst ↔
      p ∈ [Path.ofString "a",.ofString "a/hooks"] := fun p => by
    simp [nestedFirst,or_comm]
  rw [Path.sorted_congr hplain hsame]
  exact Path.sorted_of_pairwise (by decide +kernel) (by decide +kernel)

theorem spelledAlike_nestedFirst : SpelledAlike (plainSettings false) nestedFirst where
  fileName := by decide +kernel
  fileName_up := by decide +kernel
  nested := by decide +kernel
  nested_up := by decide +kernel
  plain := plain_nestedFirst
  anchor := by decide +kernel

def bareWorld : World where
  disk := { here := [],tree := ⟨[]⟩ }
  indexes := []
  log := []

theorem modes_agree_nestedFirst : ∃ paths w₁ paths' w₂,
    run (collect ((plainSettings false).inMode false) nestedFirst) bareWorld = (.ok paths,w₁) ∧
    run (collect ((plainSettings false).inMode true) nestedFirst) bareWorld = (.ok paths',w₂) ∧
    w₁.disk.read ((plainSettings false).indexPath (.ofString "a/hooks")) =
      w₂.disk.read ((plainSettings false).indexPath (.ofString "a/hooks")) ∧
    w₁.disk.read ((plainSettings false).indexPath (.ofString "a")) ≠
      w₂.disk.read ((plainSettings false).indexPath (.ofString "a")) := by
  obtain ⟨paths,h₁⟩ := exists_collect (s := (plainSettings false).inMode false) (w := bareWorld) rfl
    sorted_nestedFirst (by decide +kernel)
  obtain ⟨paths',h₂⟩ := exists_collect (s := (plainSettings false).inMode true) (w := bareWorld) rfl
    sorted_nestedFirst (by decide +kernel)
  obtain ⟨-,-,hiff⟩ :=
    modes_agree_iff (s := plainSettings false) (f := id) (fun _ _ => rfl) rfl h₁ h₂
  have hiff := hiff (isFileTree_of_formsTree (by decide +kernel)) spelledAlike_nestedFirst
  refine ⟨_,_,_,_,h₁,h₂,(hiff (.ofString "a/hooks") (by simp [nestedFirst])).2 (.inr (.inl ?_)),
    (hiff (.ofString "a") (by simp [nestedFirst])).not.2 ?_⟩
  · rintro ⟨before,baseName,after,hcalls,-,hm⟩
    have hm : Path.ofString "a/hooks/hooks" ∈ nestedFirst.map Prod.fst := by
      rw [hcalls,List.map_append]
      exact List.mem_append_left _ hm
    exact absurd hm (by decide +kernel)
  · rintro (hfile | hbefore | htext)
    · exact absurd hfile (by decide +kernel)
    · exact hbefore ⟨[(.ofString "a/hooks","X")],"Y",[],rfl,by decide +kernel,by decide +kernel⟩
    · exact absurd htext (by decide +kernel)

theorem modes_disagree : ∃ paths w₁ paths' w₂,
    run (collect (plainSettings false) nestedFirst) bareWorld = (.ok paths,w₁) ∧
    run (collect (plainSettings true) nestedFirst) bareWorld = (.ok paths',w₂) ∧
    w₁.disk.read (.ofString "a/index.ts") =
      .ok (Text.encode "export * from './hooks';\nexport * from './Y';\n") ∧
    w₂.disk.read (.ofString "a/index.ts") = .ok (Text.encode "export * from './Y';\n") := by
  obtain ⟨paths,h₁⟩ := exists_collect (s := plainSettings false) (w := bareWorld) rfl
    sorted_nestedFirst
    (by decide +kernel)
  obtain ⟨paths',h₂⟩ := exists_collect (s := plainSettings true) (w := bareWorld) rfl
    sorted_nestedFirst
    (by decide +kernel)
  exact ⟨_,_,_,_,h₁,h₂,by decide +kernel,by decide +kernel⟩

end OperationHooks.Index
