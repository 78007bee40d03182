import OperationHooks.Index.Registration
import OperationHooks.Proofs.Index.Entry
import OperationHooks.Proofs.Index.Table
import OperationHooks.Proofs.Output
/-!
Registrations that take their steps in any order. The lock of a directory is held by one of them at
most, an index knows exactly the modules that were added, and while nobody is about to write it an
index file says what its index knows.
-/
set_option autoImplicit false

namespace OperationHooks.Index
open Effect Disk

def linesOf (nested : Bool) (entries : List String) : List String :=
  let statements := (sortEntries entries).map statement
  if nested then nestedStatement :: statements else statements

def textOf (nested : Bool) (entries : List String) : String :=
  "\n".intercalate (linesOf nested entries) ++ "\n"

theorem linesOf_eq (nested : Bool) (entries : List String) : linesOf nested entries =
    (if nested then [nestedStatement] else []) ++ (sortEntries entries).map statement := by
  cases nested <;> rfl

theorem textOf_congr {entries entries' : List String} (h : entries.Perm entries') (nested : Bool) :
    textOf nested entries = textOf nested entries' := by
  simp only [textOf,linesOf,sortEntries_congr h]

/-- A text that the index of some entries may have, with or without the line for nested hooks. -/
def Renders (s : Settings) (entries : List String) (text : String) : Prop :=
  ∃ nested d, s.formatting d (textOf nested entries) = .ok text

theorem Renders.congr {s : Settings} {entries entries' : List String} {text : String}
    (h : Renders s entries text) (he : entries.Perm entries') : Renders s entries' text := by
  obtain ⟨nested,d,h⟩ := h
  exact ⟨nested,d,textOf_congr he nested ▸ h⟩

theorem formatted_eq (s : Settings) (d : Disk) (directory : Path) (entries : List String) :
    s.formatted d directory entries =
      match d.isFile (s.nestedIndex directory) with
      | .error fault => .error (.ofLookUp fault)
      | .ok nested => (s.formatting d (textOf nested entries)).mapError .format := by
  unfold Settings.formatted Settings.text
  cases d.isFile (s.nestedIndex directory) with
  | error fault => rfl
  | ok nested => rfl

theorem renders_of_formatted {s : Settings} {d : Disk} {directory : Path} {entries : List String}
    {text : String} (h : s.formatted d directory entries = .ok text) :
    Renders s entries text ∧ ∃ nested, d.isFile (s.nestedIndex directory) = .ok nested := by
  rw [formatted_eq] at h
  cases hn : d.isFile (s.nestedIndex directory) with
  | error fault => rw [hn] at h; cases h
  | ok nested =>
    simp only [hn] at h
    cases hf : s.formatting d (textOf nested entries) with
    | error fault => rw [hf] at h; cases h
    | ok text' =>
      rw [hf] at h
      obtain rfl := Except.ok.inj h
      exact ⟨⟨nested,d,hf⟩,nested,rfl⟩

/-- A registration that is going on: of what, where, and how far it has come. -/
structure Call where
  directory : Path
  baseName : String
  stage : Stage

namespace Stage

def isInside : Stage → Bool
  | .adding | .rendering | .storing _ | .settling | .releasing _ => true
  | .waiting | .ended _ => false

def hasAdded : Stage → Bool
  | .waiting | .adding => false
  | _ => true

def isUnwritten : Stage → Bool
  | .rendering | .storing _ | .releasing (some _) | .ended (some _) => true
  | _ => false

def isFaulty : Stage → Bool
  | .releasing (some _) | .ended (some _) => true
  | _ => false

end Stage

abbrev Calls := Nat → Option Call

/-- The calls after one of them has come to another stage. -/
def Calls.put (calls : Calls) (i : Nat) (c : Call) : Calls :=
  fun j => if j = i then some c else calls j

@[simp] theorem Calls.put_self (calls : Calls) (i : Nat) (c : Call) : calls.put i c i = some c := by
  simp [put]

theorem Calls.put_of_ne (calls : Calls) {i j : Nat} (c : Call) (h : j ≠ i) :
    calls.put i c j = calls j := by simp [put,h]

/-- Where several calls stand is what the table says. -/
structure Coherent (calls : Calls) (t : Table) : Prop where
  locked : ∀ directory, (t.state directory).locked = true ↔
    ∃ i c, calls i = some c ∧ c.directory = directory ∧ c.stage.isInside = true
  alone : ∀ i j c c', calls i = some c → calls j = some c' → c.directory = c'.directory →
    c.stage.isInside = true → c'.stage.isInside = true → i = j
  entries : ∀ directory baseName, baseName ∈ (t.state directory).entries ↔
    ∃ i c, calls i = some c ∧ c.directory = directory ∧ c.baseName = baseName ∧
      c.stage.hasAdded = true
  nodup : ∀ directory, (t.state directory).entries.Nodup
  listed : ∀ directory ∈ t.directories, ∃ i c, calls i = some c ∧ c.directory = directory

@[simp] theorem World.indexes_modify (w : World) (directory : Path) (f : State → State) :
    (w.modify directory f).indexes = w.indexes.modify directory f := rfl

@[simp] theorem World.disk_modify (w : World) (directory : Path) (f : State → State) :
    (w.modify directory f).disk = w.disk := rfl

@[simp] theorem World.indexes_note (w : World) (level : Log.Level) (message : String) :
    (w.note level message).indexes = w.indexes := rfl

@[simp] theorem World.disk_note (w : World) (level : Log.Level) (message : String) :
    (w.note level message).disk = w.disk := rfl

@[simp] theorem indexes_settled (s : Settings) (directory : Path) (w : World) :
    (settled s directory w).indexes =
      w.indexes.modify directory fun state => { state with dirty := false } := rfl

@[simp] theorem disk_settled (s : Settings) (directory : Path) (w : World) :
    (settled s directory w).disk = w.disk := rfl

inductive Moves (s : Settings) (directory : Path) (baseName : String) (w : World) :
    Stage → Stage → World → Prop where
  | lock : (w.indexes.state directory).locked = false →
      Moves s directory baseName w .waiting .adding
        (w.modify directory fun state => { state with locked := true })
  | repeated (message : String) : baseName ∈ (w.indexes.state directory).entries →
      Moves s directory baseName w .adding (.releasing none) (w.note .debug message)
  | add : baseName ∉ (w.indexes.state directory).entries →
      Moves s directory baseName w .adding (if s.batch then .releasing none else .rendering)
        (w.modify directory fun state =>
          { state with entries := state.entries ++ [baseName], dirty := true })
  | render (text : String) :
      s.formatted w.disk directory (w.indexes.state directory).entries = .ok text →
      Moves s directory baseName w .rendering (.storing text) w
  | unrendered (fault : Fault) :
      s.formatted w.disk directory (w.indexes.state directory).entries = .error fault →
      Moves s directory baseName w .rendering (.releasing (some fault)) w
  | store (text : String) (d : Disk) : run (save (s.indexPath directory) text) w.disk = (.ok (),d) →
      Moves s directory baseName w (.storing text) .settling { w with disk := d }
  | unstored (text : String) (fault : Fault) (d : Disk) :
      run (save (s.indexPath directory) text) w.disk = (.error fault,d) →
      Moves s directory baseName w (.storing text) (.releasing (some fault)) { w with disk := d }
  | settle : Moves s directory baseName w .settling (.releasing none) (settled s directory w)
  | release (fault : Option Fault) : Moves s directory baseName w (.releasing fault) (.ended fault)
      (w.modify directory fun state => { state with locked := false })

section Steps

variable {s : Settings} {directory : Path} {baseName : String} {w w' : World} {stage stage' : Stage}

theorem run_perform {α : Type} (w : World) (work : DiskWork α) :
    w.perform work = ((run work w.disk).1,{ w with disk := (run work w.disk).2 }) := rfl

theorem moves_of_advance (h : stage.advance s directory baseName w = some (stage',w')) :
    Moves s directory baseName w stage stage' w' := by
  unfold Stage.advance at h
  cases stage with
  | waiting =>
    dsimp only at h
    split at h
    · cases h
    · rename_i hl
      obtain ⟨rfl,rfl⟩ := Prod.mk.inj (Option.some.inj h)
      exact .lock (Bool.eq_false_iff.2 hl)
  | adding =>
    dsimp only [State.add?] at h
    by_cases hb : baseName ∈ (w.indexes.state directory).entries
    · rw [if_pos (List.contains_iff_mem.2 hb)] at h
      obtain ⟨rfl,rfl⟩ := Prod.mk.inj (Option.some.inj h)
      exact .repeated _ hb
    · rw [if_neg (by simpa using hb)] at h
      obtain ⟨rfl,rfl⟩ := Prod.mk.inj (Option.some.inj h)
      exact .add hb
  | rendering =>
    dsimp only at h
    cases hf : s.formatted w.disk directory (w.indexes.state directory).entries with
    | error fault =>
      rw [hf] at h
      obtain ⟨rfl,rfl⟩ := Prod.mk.inj (Option.some.inj h)
      exact .unrendered _ hf
    | ok text =>
      rw [hf] at h
      obtain ⟨rfl,rfl⟩ := Prod.mk.inj (Option.some.inj h)
      exact .render _ hf
  | storing text =>
    dsimp only [run_perform] at h
    cases hr : run (save (s.indexPath directory) text) w.disk with
    | mk r d =>
      rw [hr] at h
      cases r <;> obtain ⟨rfl,rfl⟩ := Prod.mk.inj (Option.some.inj h)
      · exact .unstored _ _ _ hr
      · exact .store _ _ hr
  | settling =>
    dsimp only at h
    obtain ⟨rfl,rfl⟩ := Prod.mk.inj (Option.some.inj h)
    exact .settle
  | releasing fault =>
    dsimp only at h
    obtain ⟨rfl,rfl⟩ := Prod.mk.inj (Option.some.inj h)
    exact .release _
  | ended fault => cases h

/-- A registration stands still only at its end, or while it waits for the lock. -/
theorem advance_eq_none (h : stage.advance s directory baseName w = none) :
    (∃ fault, stage = .ended fault) ∨
      stage = .waiting ∧ (w.indexes.state directory).locked = true := by
  unfold Stage.advance at h
  cases stage with
  | waiting =>
    dsimp only at h
    split at h
    · exact .inr ⟨rfl,‹_›⟩
    · cases h
  | adding => dsimp only at h; split at h <;> cases h
  | rendering => dsimp only at h; split at h <;> cases h
  | storing text =>
    dsimp only [run_perform] at h
    cases hr : run (save (s.indexPath directory) text) w.disk with
    | mk r d => rw [hr] at h; cases r <;> cases h
  | settling => dsimp only at h; cases h
  | releasing fault => dsimp only at h; cases h
  | ended fault => exact .inl ⟨fault,rfl⟩

end Steps

namespace Coherent

variable {calls : Calls} {t t' : Table} {i : Nat} {directory : Path} {baseName : String}
variable {stage stage' : Stage}

/-- What has to be seen of one step: what it does to the state of its directory, and that nobody
else is at work there. -/
theorem put (h : Coherent calls t) (hi : calls i = some ⟨directory,baseName,stage⟩)
    (hother : ∀ other, other ≠ directory → t'.state other = t.state other)
    (hlisted : ∀ other ∈ t'.directories, other = directory ∨ other ∈ t.directories)
    (hlocked : (t'.state directory).locked = stage'.isInside)
    (halone : ∀ j c, j ≠ i → calls j = some c → c.directory = directory → c.stage.isInside = false)
    (hadded : stage.hasAdded = true → stage'.hasAdded = true)
    (hentries : ∀ x, x ∈ (t'.state directory).entries ↔
      x ∈ (t.state directory).entries ∨ x = baseName ∧ stage'.hasAdded = true)
    (hnodup : (t'.state directory).entries.Nodup) :
    Coherent (calls.put i ⟨directory,baseName,stage'⟩) t' := by
  have hcases : ∀ j c, calls.put i ⟨directory,baseName,stage'⟩ j = some c →
      j = i ∧ c = ⟨directory,baseName,stage'⟩ ∨ j ≠ i ∧ calls j = some c := by
    intro j c hj
    by_cases he : j = i
    · subst he; rw [Calls.put_self] at hj; exact .inl ⟨rfl,(Option.some.inj hj).symm⟩
    · rw [Calls.put_of_ne _ _ he] at hj; exact .inr ⟨he,hj⟩
  refine ⟨fun other => ?_,fun j k c c' hj hk hd hc hc' => ?_,fun other x => ?_,fun other => ?_,
    fun other ho => ?_⟩
  · by_cases ho : other = directory
    · subst ho
      rw [hlocked]
      refine ⟨fun hs => ⟨i,_,Calls.put_self _ _ _,rfl,hs⟩,?_⟩
      rintro ⟨j,c,hj,hd,hc⟩
      rcases hcases j c hj with ⟨-,rfl⟩ | ⟨hne,hj⟩
      · exact hc
      · rw [halone j c hne hj hd] at hc; cases hc
    · rw [hother other ho,h.locked]
      constructor
      · rintro ⟨j,c,hj,hd,hc⟩
        have hne : j ≠ i := by
          rintro rfl
          rw [hi] at hj
          exact ho (hd.symm.trans (congrArg Call.directory (Option.some.inj hj)).symm)
        exact ⟨j,c,(Calls.put_of_ne _ _ hne).trans hj,hd,hc⟩
      · rintro ⟨j,c,hj,hd,hc⟩
        rcases hcases j c hj with ⟨-,rfl⟩ | ⟨-,hj⟩
        · exact absurd hd.symm ho
        · exact ⟨j,c,hj,hd,hc⟩
  · rcases hcases j c hj with ⟨hji,rfl⟩ | ⟨hji,hj⟩ <;> rcases hcases k c' hk with
      ⟨hki,rfl⟩ | ⟨hki,hk⟩
    · exact hji.trans hki.symm
    · rw [halone k c' hki hk hd.symm] at hc'; cases hc'
    · rw [halone j c hji hj hd] at hc; cases hc
    · exact h.alone j k c c' hj hk hd hc hc'
  · by_cases ho : other = directory
    · subst ho
      rw [hentries,h.entries]
      constructor
      · rintro (⟨j,c,hj,hd,hb,hc⟩ | ⟨rfl,hs⟩)
        · by_cases he : j = i
          · subst he
            rw [hi] at hj
            obtain rfl := Option.some.inj hj
            exact ⟨j,_,Calls.put_self _ _ _,rfl,hb,hadded hc⟩
          · exact ⟨j,c,(Calls.put_of_ne _ _ he).trans hj,hd,hb,hc⟩
        · exact ⟨i,_,Calls.put_self _ _ _,rfl,rfl,hs⟩
      · rintro ⟨j,c,hj,hd,hb,hc⟩
        rcases hcases j c hj with ⟨-,rfl⟩ | ⟨-,hj⟩
        · exact .inr ⟨hb.symm,hc⟩
        · exact .inl ⟨j,c,hj,hd,hb,hc⟩
    · rw [hother other ho,h.entries]
      constructor
      · rintro ⟨j,c,hj,hd,hb,hc⟩
        have hne : j ≠ i := by
          rintro rfl
          rw [hi] at hj
          exact ho (hd.symm.trans (congrArg Call.directory (Option.some.inj hj)).symm)
        exact ⟨j,c,(Calls.put_of_ne _ _ hne).trans hj,hd,hb,hc⟩
      · rintro ⟨j,c,hj,hd,hb,hc⟩
        rcases hcases j c hj with ⟨-,rfl⟩ | ⟨-,hj⟩
        · exact absurd hd.symm ho
        · exact ⟨j,c,hj,hd,hb,hc⟩
  · by_cases ho : other = directory
    · subst ho; exact hnodup
    · rw [hother other ho]; exact h.nodup other
  · have hold : ∃ j c, calls j = some c ∧ c.directory = other := by
      rcases hlisted other ho with rfl | ho
      · exact ⟨i,_,hi,rfl⟩
      · exact h.listed other ho
    obtain ⟨j,c,hj,hd⟩ := hold
    by_cases he : j = i
    · subst he
      rw [hi] at hj
      obtain rfl := Option.some.inj hj
      exact ⟨j,_,Calls.put_self _ _ _,hd⟩
    · exact ⟨j,c,(Calls.put_of_ne _ _ he).trans hj,hd⟩

theorem alone_of_inside (h : Coherent calls t) (hi : calls i = some ⟨directory,baseName,stage⟩)
    (hs : stage.isInside = true) (j : Nat) (c : Call) (hj : j ≠ i) (hc : calls j = some c)
    (hd : c.directory = directory) : c.stage.isInside = false :=
  Bool.eq_false_iff.2 fun hin => hj (h.alone j i c _ hc hi hd hin hs)

theorem locked_of_inside (h : Coherent calls t) (hi : calls i = some ⟨directory,baseName,stage⟩)
    (hs : stage.isInside = true) : (t.state directory).locked = true :=
  (h.locked directory).2 ⟨i,_,hi,rfl,hs⟩

theorem still (h : Coherent calls t) (hi : calls i = some ⟨directory,baseName,stage⟩)
    (hs : stage.isInside = true) (hs' : stage'.isInside = true)
    (ha : stage.hasAdded = stage'.hasAdded) :
    Coherent (calls.put i ⟨directory,baseName,stage'⟩) t := by
  refine h.put hi (fun _ _ => rfl) (fun _ ho => .inr ho) ?_
    (h.alone_of_inside hi hs) (fun h => ha ▸ h)
    (fun x => ⟨.inl,?_⟩) (h.nodup _)
  · rw [h.locked_of_inside hi hs,hs']
  · rintro (hx | ⟨rfl,hx⟩)
    · exact hx
    · exact (h.entries _ _).2 ⟨i,_,hi,rfl,rfl,ha.trans hx⟩

/-- Whatever step a registration takes, the table still says where all of them stand. -/
theorem moves {s : Settings} {w w' : World} (h : Coherent calls w.indexes)
    (hi : calls i = some ⟨directory,baseName,stage⟩)
    (hm : Moves s directory baseName w stage stage' w') :
    Coherent (calls.put i ⟨directory,baseName,stage'⟩) w'.indexes := by
  have hother : ∀ (f : State → State) other, other ≠ directory →
      (w.indexes.modify directory f).state other = w.indexes.state other :=
    fun f other ho => Table.state_modify_of_ne _ _ ho
  have hlisted : ∀ (f : State → State), ∀ other ∈ (w.indexes.modify directory f).directories,
      other = directory ∨ other ∈ w.indexes.directories :=
        fun _ _ ho => Table.mem_directories_modify.1 ho
  -- Steps behind the one that adds the entry find it there.
  have hkept : ∀ {st : Stage}, stage.hasAdded = true →
      ∀ x, x ∈ (w.indexes.state directory).entries ↔
      x ∈ (w.indexes.state directory).entries ∨ x = baseName ∧ st.hasAdded = true := by
    intro st hs x
    refine ⟨.inl,?_⟩
    rintro (hx | ⟨rfl,-⟩)
    · exact hx
    · exact (h.entries _ _).2 ⟨i,_,hi,rfl,rfl,hs⟩
  cases hm with
  | lock hl =>
    rw [World.indexes_modify]
    refine h.put hi (hother _) (hlisted _) (by simp [Stage.isInside])
      (fun j c _ hc hd => ?_) (fun h => h)
      (fun x => by simp [Stage.hasAdded]) (by simpa using h.nodup directory)
    refine Bool.eq_false_iff.2 fun hin => ?_
    rw [(h.locked directory).2 ⟨j,c,hc,hd,hin⟩] at hl
    cases hl
  | repeated message hb =>
    refine h.put hi (fun _ _ => rfl) (fun _ ho => .inr ho) (h.locked_of_inside hi rfl)
      (h.alone_of_inside hi rfl) (fun _ => rfl) (fun x => ⟨.inl,?_⟩) (h.nodup _)
    rintro (hx | ⟨rfl,-⟩)
    · exact hx
    · exact hb
  | add hb =>
    have hin : (if s.batch then Stage.releasing none else .rendering).isInside = true := by
      split <;> rfl
    have hadd : (if s.batch then Stage.releasing none else .rendering).hasAdded = true := by
      split <;> rfl
    rw [World.indexes_modify]
    refine h.put hi (hother _) (hlisted _) ?_ (h.alone_of_inside hi rfl) (fun _ => hadd)
      (fun x => by simp [hadd]) ?_
    · rw [hin]; simpa using h.locked_of_inside hi rfl
    · have hne : ∀ x ∈ (w.indexes.state directory).entries, x ≠ baseName :=
        fun x hx he => hb (he ▸ hx)
      simpa [List.nodup_append,h.nodup directory] using hne
  | render text _ => exact h.still hi rfl rfl rfl
  | unrendered fault _ => exact h.still hi rfl rfl rfl
  | store text d _ => exact h.still hi rfl rfl rfl
  | unstored text fault d _ => exact h.still hi rfl rfl rfl
  | settle =>
    have hl := h.locked_of_inside hi rfl
    rw [indexes_settled]
    exact h.put hi (hother _) (hlisted _) (by simpa [Stage.isInside] using hl)
      (h.alone_of_inside hi rfl) (fun _ => rfl) (by simpa using hkept rfl)
        (by simpa using h.nodup directory)
  | release fault =>
    rw [World.indexes_modify]
    exact h.put hi (hother _) (hlisted _) (by simp [Stage.isInside])
      (h.alone_of_inside hi rfl) (fun _ => rfl) (by simpa using hkept rfl)
        (by simpa using h.nodup directory)

theorem ended_of_stuck {s : Settings} {w : World} (h : Coherent calls w.indexes)
    (hstuck : ∀ i c, calls i = some c → c.stage.advance s c.directory c.baseName w = none) :
    ∀ i c, calls i = some c → ∃ fault, c.stage = .ended fault := by
  intro i c hi
  rcases advance_eq_none (hstuck i c hi) with he | ⟨-,hl⟩
  · exact he
  · obtain ⟨j,c',hj,-,hin⟩ := (h.locked _).1 hl
    rcases advance_eq_none (hstuck j c' hj) with ⟨fault,he⟩ | ⟨he,-⟩ <;>
      rw [he] at hin <;> cases hin

end Coherent

end OperationHooks.Index
