import OperationHooks.Proofs.Index.Registration
/-!
Index files while registrations take their steps: a file is written under the lock of its directory,
so whenever nobody is at it, it says what has been registered; in a batch no file is touched.
-/
set_option autoImplicit false

namespace OperationHooks.Index
open Effect Disk

/-- The disk a run has before the first registration, and the directories it registers for: they are
there, and two of them are two places. -/
structure Ground (s : Settings) (base : Disk) (used : Path → Prop) : Prop where
  linkFree : LinkFree base.tree
  there : ∀ directory, used directory → HasDirectory base directory
  apart : ∀ directory other, used directory → used other →
    placeOf base directory = placeOf base other → directory = other
  fileName : Path.IsPart s.fileName
  fileName_up : s.fileName ≠ ".."
  fileName_short : s.fileName.utf8ByteSize ≤ maxNameBytes
  nested : s.nested = standardNested

def indexPlace (s : Settings) (base : Disk) (directory : Path) : Place :=
  placeOf base directory ++ [s.fileName]

/-- It can be asked whether there is an index of nested hooks. -/
def Answers (s : Settings) (directory : Path) : Prop :=
  ∃ (d : Disk) (nested : Bool), d.isFile (s.nestedIndex directory) = .ok nested

def Ready (s : Settings) (base : Disk) (directory : Path) : Prop :=
  CanWrite base (s.indexPath directory) ∧ Answers s directory

def Stands (s : Settings) (base d : Disk) (directory : Path) (entries : List String) : Prop :=
  Ready s base directory ∧ ∃ text, Renders s entries text ∧
    d.tree.get? (indexPlace s base directory) =
      some (stored (base.tree.get? (indexPlace s base directory)) (Text.encode text))

theorem Stands.congr {s : Settings} {base d d' : Disk} {directory : Path} {entries : List String}
    (h : Stands s base d directory entries)
    (hd : d'.tree.get? (indexPlace s base directory) = d.tree.get? (indexPlace s base directory)) :
    Stands s base d' directory entries := by
  obtain ⟨hready,text,hr,he⟩ := h
  exact ⟨hready,text,hr,hd.trans he⟩

def Stage.isWriting : Stage → Bool
  | .rendering | .storing _ | .settling => true
  | _ => false

structure Filed (s : Settings) (base : Disk) (used : Path → Prop) (calls : Calls) (w : World) :
    Prop where
  storing : ∀ i c text, calls i = some c → c.stage = .storing text →
    Renders s (w.indexes.state c.directory).entries text ∧ Answers s c.directory
  stands : s.batch = false → ∀ directory, (w.indexes.state directory).entries ≠ [] →
    (∀ i c, calls i = some c → c.directory = directory → c.stage.isUnwritten = false) →
    Stands s base w.disk directory (w.indexes.state directory).entries
  bare : ∀ directory, used directory →
    s.batch = true ∨ (w.indexes.state directory).entries = [] →
    w.disk.tree.get? (indexPlace s base directory) = base.tree.get? (indexPlace s base directory)
  form : ∀ directory, used directory →
    w.disk.tree.get? (indexPlace s base directory) = base.tree.get? (indexPlace s base directory) ∨
    ∃ bytes, w.disk.tree.get? (indexPlace s base directory) =
      some (stored (base.tree.get? (indexPlace s base directory)) bytes)
  batch : s.batch = true → ∀ i c, calls i = some c → c.stage.isWriting = false
  dirty : s.batch = true → ∀ directory, (w.indexes.state directory).entries ≠ [] →
    (w.indexes.state directory).dirty = true
  earned : ∀ directory, (w.indexes.state directory).dirty = true →
    (w.indexes.state directory).entries ≠ []

section Ground

variable {s : Settings} {base : Disk} {used : Path → Prop} {directory other : Path}

theorem Ground.indexPath_eq (g : Ground s base used) (directory : Path) :
    s.indexPath directory = childOf directory s.fileName := div_part _ g.fileName

theorem Ground.placeOf_indexPath (g : Ground s base used) {d : Disk} (h : d.here = base.here)
    (directory : Path) : placeOf d (s.indexPath directory) = indexPlace s base directory := by
  rw [g.indexPath_eq,placeOf_childOf d _ g.fileName.2.1 g.fileName_up,placeOf_eq h,indexPlace]

theorem Ground.indexPlace_ne (g : Ground s base used) (h : used directory) (h' : used other)
    (hne : other ≠ directory) : indexPlace s base other ≠ indexPlace s base directory := by
  intro he
  exact hne (g.apart _ _ h' h (List.append_cancel_right he))

theorem Ground.save_index (g : Ground s base used) {G : Place → Prop} {d : Disk}
    (ho : Overlaid G base d) (h : used directory) (text : String) :
    (CanWrite base (s.indexPath directory) ∧ run (save (s.indexPath directory) text) d =
        (.ok (),d.putAt (indexPlace s base directory)
          (stored (d.tree.get? (indexPlace s base directory)) (Text.encode text)))) ∨
      ¬ CanWrite base (s.indexPath directory) ∧
        ∃ fault, run (save (s.indexPath directory) text) d = (.error fault,d) := by
  have hplace := g.placeOf_indexPath (d := base) rfl directory
  rw [g.indexPath_eq] at hplace ⊢
  rw [← hplace]
  exact save_overlaid g.linkFree ho (g.there _ h) g.fileName.2.1 g.fileName_up text

theorem Ground.isFile_nestedIndex (g : Ground s base used) {G : Place → Prop} {d : Disk}
    (ho : Overlaid G base d) (h : used directory) (ha : Answers s directory) :
    ∃ nested, d.isFile (s.nestedIndex directory) = .ok nested := by
  have hpart : Path.IsPart standardNested := ⟨by decide,by decide,by decide⟩
  have hpath : s.nestedIndex directory = childOf (childOf directory standardNested) s.fileName := by
    rw [Settings.nestedIndex,g.nested,div_part _ hpart,div_part _ g.fileName]
  by_cases hask : Askable (s.nestedIndex directory)
  · rw [hpath] at hask ⊢
    exact isFile_of_askable (ho.linkFree g.linkFree)
      ((hasDirectory_overlaid g.linkFree ho).2 (g.there _ h))
      hask (by decide) (by decide) (by decide) g.fileName.2.1 g.fileName_up
      g.fileName_short
  · obtain ⟨d',nested,hn⟩ := ha
    exact ⟨nested,(isFile_of_not_askable hask d' d).trans hn⟩

def Formats (s : Settings) : Prop := ∀ d text, ∃ text', s.formatting d text = .ok text'

theorem Ground.formatted_ok (g : Ground s base used) {G : Place → Prop} {d : Disk}
    (ho : Overlaid G base d) (h : used directory) (ha : Answers s directory) (hf : Formats s)
    (entries : List String) : ∃ text, s.formatted d directory entries = .ok text := by
  obtain ⟨nested,hn⟩ := g.isFile_nestedIndex ho h ha
  obtain ⟨text,ht⟩ := hf d (textOf nested entries)
  exact ⟨text,by rw [formatted_eq,hn]; simp only [ht]; rfl⟩

theorem Ground.not_faulty (g : Ground s base used) {G : Place → Prop} {w w' : World}
    (ho : Overlaid G base w.disk) (h : used directory)
    (hr : Ready s base directory) (hf : Formats s)
    {baseName : String} {stage stage' : Stage} (hs : stage.isFaulty = false)
    (hm : Moves s directory baseName w stage stage' w') : stage'.isFaulty = false := by
  cases hm with
  | lock _ => rfl
  | repeated _ _ => rfl
  | add _ => split <;> rfl
  | render _ _ => rfl
  | unrendered fault hu =>
    obtain ⟨text,ht⟩ := g.formatted_ok ho h hr.2 hf (w.indexes.state directory).entries
    rw [ht] at hu; cases hu
  | store _ _ _ => rfl
  | unstored text fault d hu =>
    rcases g.save_index ho h text with ⟨-,hsave⟩ | ⟨hcan,-⟩
    · rw [hsave] at hu; cases hu
    · exact absurd hr.1 hcan
  | settle => rfl
  | release fault => cases fault <;> first | rfl | cases hs

theorem Ground.disk_of_moves (g : Ground s base used) {G : Place → Prop} {w w' : World}
    (ho : Overlaid G base w.disk) (h : used directory) {baseName : String} {stage stage' : Stage}
    (hm : Moves s directory baseName w stage stage' w') (q : Place)
    (hq : q ≠ indexPlace s base directory) :
    w'.disk.tree.get? q = w.disk.tree.get? q := by
  have hsave : ∀ text r d, run (save (s.indexPath directory) text) w.disk = (r,d) →
      d.tree.get? q = w.disk.tree.get? q := by
    intro text r d hr
    rcases g.save_index ho h text with ⟨-,hs⟩ | ⟨-,fault,hs⟩ <;> rw [hs] at hr <;>
      obtain ⟨-,rfl⟩ := Prod.mk.inj hr
    · exact Tree.get?_put_of_ne (by simp [indexPlace]) _ hq
    · rfl
  cases hm with
  | store text d hr => exact hsave text _ d hr
  | unstored text fault d hr => exact hsave text _ d hr
  | _ => rfl

end Ground

theorem Coherent.enter {calls : Calls} {t : Table} {i : Nat} {c : Call} (h : Coherent calls t)
    (hi : calls i = none) (hc : c.stage = .waiting) : Coherent (calls.put i c) t := by
  have hcases : ∀ j c', calls.put i c j = some c' → c' = c ∨ calls j = some c' := by
    intro j c' hj
    by_cases he : j = i
    · subst he; rw [Calls.put_self] at hj; exact .inl (Option.some.inj hj).symm
    · rw [Calls.put_of_ne _ _ he] at hj; exact .inr hj
  have hold : ∀ j c', calls j = some c' → calls.put i c j = some c' := fun j c' hj => by
    rwa [Calls.put_of_ne]
    rintro rfl; rw [hi] at hj; cases hj
  refine ⟨fun directory => ?_,fun j k a b hj hk hd ha hb => ?_,fun directory baseName => ?_,h.nodup,
    fun directory hd => ?_⟩
  · rw [h.locked]
    constructor
    · rintro ⟨j,a,hj,ha⟩; exact ⟨j,a,hold j a hj,ha⟩
    · rintro ⟨j,a,hj,hd,ha⟩
      rcases hcases j a hj with rfl | hj
      · rw [hc] at ha; cases ha
      · exact ⟨j,a,hj,hd,ha⟩
  · rcases hcases j a hj with rfl | hj
    · rw [hc] at ha; cases ha
    · rcases hcases k b hk with rfl | hk
      · rw [hc] at hb; cases hb
      · exact h.alone j k a b hj hk hd ha hb
  · rw [h.entries]
    constructor
    · rintro ⟨j,a,hj,ha⟩; exact ⟨j,a,hold j a hj,ha⟩
    · rintro ⟨j,a,hj,hd,hb,ha⟩
      rcases hcases j a hj with rfl | hj
      · rw [hc] at ha; cases ha
      · exact ⟨j,a,hj,hd,hb,ha⟩
  · obtain ⟨j,a,hj,ha⟩ := h.listed directory hd
    exact ⟨j,a,hold j a hj,ha⟩

namespace Filed

variable {s : Settings} {base : Disk} {used : Path → Prop} {calls : Calls} {w w' : World} {i : Nat}
variable {directory : Path} {baseName : String} {stage stage' : Stage}

theorem enter {c : Call} (h : Filed s base used calls w) (hi : calls i = none)
    (hc : c.stage = .waiting) :
    Filed s base used (calls.put i c) w := by
  have hcases : ∀ j c', calls.put i c j = some c' → c' = c ∨ calls j = some c' := by
    intro j c' hj
    by_cases he : j = i
    · subst he; rw [Calls.put_self] at hj; exact .inl (Option.some.inj hj).symm
    · rw [Calls.put_of_ne _ _ he] at hj; exact .inr hj
  refine ⟨fun j c' text hj hs => ?_,fun hb directory hd hw => h.stands hb directory hd
    fun j c' hj =>
    hw j c' ?_,h.bare,h.form,fun hb j c' hj => ?_,h.dirty,h.earned⟩
  · rcases hcases j c' hj with rfl | hj
    · rw [hc] at hs; cases hs
    · exact h.storing j c' text hj hs
  · rw [Calls.put_of_ne _ _ fun he => ?_]
    · exact hj
    · subst he; rw [hi] at hj; cases hj
  · rcases hcases j c' hj with rfl | hj
    · rw [hc]; rfl
    · exact h.batch hb j c' hj

theorem elsewhere (h : Filed s base used calls w) (hc : Coherent calls w.indexes)
    (hall : ∀ i c, calls i = some c → used c.directory) (hindexes : w'.indexes = w.indexes)
    (hdisk : ∀ directory, used directory → w'.disk.tree.get? (indexPlace s base directory) =
      w.disk.tree.get? (indexPlace s base directory)) : Filed s base used calls w' := by
  refine ⟨fun j c text => ?_,fun hb other ho hw => ?_,fun other hu ho => ?_,
    fun other hu => ?_,h.batch,
    fun hb other ho => ?_,fun other ho => ?_⟩
  · rw [hindexes]; exact h.storing j c text
  · rw [hindexes] at ho ⊢
    obtain ⟨x,hx⟩ := List.exists_mem_of_ne_nil _ ho
    obtain ⟨k,c,hk,rfl,-,-⟩ := (hc.entries other x).1 hx
    exact (h.stands hb _ ho hw).congr (hdisk _ (hall k c hk))
  · rw [hindexes] at ho; rw [hdisk other hu]; exact h.bare other hu ho
  · rw [hdisk other hu]; exact h.form other hu
  · rw [hindexes] at ho ⊢; exact h.dirty hb other ho
  · rw [hindexes] at ho ⊢; exact h.earned other ho

theorem still (h : Filed s base used calls w) (hi : calls i = some ⟨directory,baseName,stage⟩)
    (hdisk : w'.disk = w.disk)
    (hentries : ∀ other, (w'.indexes.state other).entries = (w.indexes.state other).entries)
    (hdirty : s.batch = true → ∀ other, (w'.indexes.state other).dirty =
      (w.indexes.state other).dirty)
    (hearned : ∀ other, (w'.indexes.state other).dirty = true →
      (w.indexes.state other).dirty = true)
    (hstoring : ∀ text, stage' = .storing text →
      Renders s (w.indexes.state directory).entries text ∧ Answers s directory)
    (hunwritten : stage.isUnwritten = true → stage'.isUnwritten = true)
    (hwriting : s.batch = true → stage'.isWriting = false) :
    Filed s base used (calls.put i ⟨directory,baseName,stage'⟩) w' := by
  refine ⟨fun j c text hj hc => ?_,fun hb other ho hw => ?_,fun other hu ho => ?_,
    fun other hu => ?_,
    fun hb j c hj => ?_,fun hb other ho => ?_,fun other ho => ?_⟩
  · rw [hentries]
    by_cases he : j = i
    · subst he
      rw [Calls.put_self] at hj
      obtain rfl := Option.some.inj hj
      exact hstoring text hc
    · rw [Calls.put_of_ne _ _ he] at hj
      exact h.storing j c text hj hc
  · rw [hentries] at ho ⊢
    refine (h.stands hb other ho fun j c hj hd => ?_).congr (by rw [hdisk])
    by_cases he : j = i
    · subst he
      rw [hi] at hj
      obtain rfl := Option.some.inj hj
      exact Bool.eq_false_iff.2
        fun hs => by simpa [hunwritten hs] using hw j _ (Calls.put_self _ _ _) hd
    · exact hw j c ((Calls.put_of_ne _ _ he).trans hj) hd
  · rw [hdisk]; rw [hentries] at ho; exact h.bare other hu ho
  · rw [hdisk]; exact h.form other hu
  · by_cases he : j = i
    · subst he
      rw [Calls.put_self] at hj
      obtain rfl := Option.some.inj hj
      exact hwriting hb
    · rw [Calls.put_of_ne _ _ he] at hj; exact h.batch hb j c hj
  · rw [hentries] at ho; rw [hdirty hb]; exact h.dirty hb other ho
  · rw [hentries]; exact h.earned other (hearned other ho)

/-- An entry is added; in a batch it waits to be written, else writing it comes next. -/
theorem add (h : Filed s base used calls w) (hc : Coherent calls w.indexes)
    (hi : calls i = some ⟨directory,baseName,.adding⟩) :
    Filed s base used
      (calls.put i ⟨directory,baseName,if s.batch then .releasing none else .rendering⟩)
      (w.modify directory fun state =>
        { state with entries := state.entries ++ [baseName], dirty := true }) := by
  refine ⟨fun j c text hj hs => ?_,fun hb other ho hw => ?_,fun other hu ho => ?_,
    fun other hu => ?_,
    fun hb j c hj => ?_,fun hb other ho => ?_,fun other ho => ?_⟩
  · by_cases he : j = i
    · subst he
      rw [Calls.put_self] at hj
      obtain rfl := Option.some.inj hj
      by_cases hb : s.batch = true <;> simp [hb] at hs
    · rw [Calls.put_of_ne _ _ he] at hj
      have hne : c.directory ≠ directory := fun hd => by
        have hin := hc.alone_of_inside hi rfl j c he hj hd
        rw [hs] at hin; cases hin
      rw [World.indexes_modify,Table.state_modify_of_ne _ _ hne]
      exact h.storing j c text hj hs
  · by_cases hd : other = directory
    · subst hd
      have hun := hw i _ (Calls.put_self _ _ _) rfl
      simp [hb,Stage.isUnwritten] at hun
    · rw [World.indexes_modify,Table.state_modify_of_ne _ _ hd] at ho ⊢
      refine h.stands hb other ho fun j c hj hd' => hw j c ?_ hd'
      rw [Calls.put_of_ne _ _ fun he => ?_]
      · exact hj
      · subst he
        rw [hi] at hj
        obtain rfl := Option.some.inj hj
        exact hd hd'.symm
  · refine h.bare other hu (ho.imp_right fun ho => ?_)
    rw [World.indexes_modify,Table.state_modify] at ho
    split at ho
    · simp at ho
    · exact ho
  · exact h.form other hu
  · by_cases he : j = i
    · subst he
      rw [Calls.put_self] at hj
      obtain rfl := Option.some.inj hj
      simp [hb,Stage.isWriting]
    · rw [Calls.put_of_ne _ _ he] at hj; exact h.batch hb j c hj
  · rw [World.indexes_modify,Table.state_modify] at ho ⊢
    split
    · rfl
    · rename_i hd; rw [if_neg hd] at ho; exact h.dirty hb other ho
  · rw [World.indexes_modify,Table.state_modify] at ho ⊢
    split
    · simp
    · rename_i hd; rw [if_neg hd] at ho; exact h.earned other ho

theorem store (h : Filed s base used calls w) (g : Ground s base used)
    (hc : Coherent calls w.indexes)
    (hall : ∀ i c, calls i = some c → used c.directory) {text : String} {d : Disk}
    (hi : calls i = some ⟨directory,baseName,.storing text⟩)
    (hcan : CanWrite base (s.indexPath directory))
    (hd : d = w.disk.putAt (indexPlace s base directory)
      (stored (w.disk.tree.get? (indexPlace s base directory)) (Text.encode text))) :
    Filed s base used (calls.put i ⟨directory,baseName,.settling⟩) { w with disk := d } := by
  have hu : used directory := hall i _ hi
  have hne : indexPlace s base directory ≠ [] := by simp [indexPlace]
  have hbatch : s.batch = false := Bool.eq_false_iff.2 fun hb => by
    have hw := h.batch hb i _ hi
    cases hw
  have hkeep : ∀ other, used other → other ≠ directory →
      d.tree.get? (indexPlace s base other) = w.disk.tree.get? (indexPlace s base other) := by
    intro other ho hne'
    rw [hd]; exact Tree.get?_put_of_ne hne _ (g.indexPlace_ne hu ho hne')
  have hself : d.tree.get? (indexPlace s base directory) =
      some (stored (base.tree.get? (indexPlace s base directory)) (Text.encode text)) := by
    rw [hd,putAt,Tree.get?_put_self hne]
    rcases h.form directory hu with he | ⟨bytes,he⟩ <;> rw [he]
    rfl
  have hold : ∀ j c, calls.put i ⟨directory,baseName,.settling⟩ j = some c → j ≠ i →
      calls j = some c :=
    fun j c hj he => by rwa [Calls.put_of_ne _ _ he] at hj
  have hnew : ∀ c, calls.put i ⟨directory,baseName,.settling⟩ i = some c →
      c = ⟨directory,baseName,.settling⟩ := fun c hc => by
    rw [Calls.put_self] at hc; exact (Option.some.inj hc).symm
  refine ⟨fun j c text' hj hc => ?_,fun hb other ho hw => ?_,fun other ho hb => ?_,
    fun other ho => ?_,
    fun hb => ?_,fun hb => ?_,h.earned⟩
  · by_cases he : j = i
    · subst he; rw [hnew c hj] at hc; cases hc
    · exact h.storing j c text' (hold j c hj he) hc
  · by_cases ho' : other = directory
    · subst ho'
      obtain ⟨hr,ha⟩ := h.storing i _ text hi rfl
      exact ⟨⟨hcan,ha⟩,text,hr,hself⟩
    · obtain ⟨x,hx⟩ := List.exists_mem_of_ne_nil _ ho
      obtain ⟨k,c,hk,rfl,-,-⟩ := (hc.entries other x).1 hx
      refine (h.stands hb c.directory ho fun j c' hj hd' => hw j c' ?_ hd').congr
        (hkeep _ (hall k c hk) ho')
      rw [Calls.put_of_ne _ _ fun he => ?_]
      · exact hj
      · subst he
        rw [hi] at hj
        obtain rfl := Option.some.inj hj
        exact ho' hd'.symm
  · have ho' : other ≠ directory := by
      rintro rfl
      have hmem : baseName ∈ (w.indexes.state other).entries :=
        (hc.entries _ _).2 ⟨i,_,hi,rfl,rfl,rfl⟩
      rcases hb with hb | hb
      · rw [hbatch] at hb; cases hb
      · rw [hb] at hmem; cases hmem
    rw [hkeep other ho ho']; exact h.bare other ho hb
  · by_cases ho' : other = directory
    · subst ho'; exact .inr ⟨_,hself⟩
    · rw [hkeep other ho ho']; exact h.form other ho
  · rw [hbatch] at hb; cases hb
  · rw [hbatch] at hb; cases hb

/-- Whatever step a registration takes, the files keep up with what is registered. -/
theorem moves (h : Filed s base used calls w) (g : Ground s base used)
    (hc : Coherent calls w.indexes)
    (hall : ∀ i c, calls i = some c → used c.directory) {G : Place → Prop}
    (hover : Overlaid G base w.disk)
    (hG : ∀ directory, used directory → G (indexPlace s base directory))
    (hi : calls i = some ⟨directory,baseName,stage⟩)
    (hm : Moves s directory baseName w stage stage' w') :
    Filed s base used (calls.put i ⟨directory,baseName,stage'⟩) w' ∧ Overlaid G base w'.disk := by
  have hu : used directory := hall i _ hi
  have hbatch : stage.isWriting = true → s.batch = false :=
    fun hw => Bool.eq_false_iff.2 fun hb => by
    rw [h.batch hb i _ hi] at hw; cases hw
  have hlock := Table.dirty_modify (fun state => { state with locked := true }) (fun _ => rfl)
    w.indexes directory
  have hunlock := Table.dirty_modify (fun state => { state with locked := false }) (fun _ => rfl)
    w.indexes directory
  cases hm with
  | lock hl =>
    exact ⟨h.still hi rfl (Table.entries_modify (fun state => { state with locked := true })
      (fun _ => rfl) _ _)
      (fun _ => hlock) (fun other ho => (hlock other).symm.trans ho) (by simp) (fun h => h)
      (fun _ => rfl),hover⟩
  | repeated message hb =>
    exact ⟨h.still hi rfl (fun _ => rfl) (fun _ _ => rfl) (fun _ ho => ho) (by simp)
      (fun h => by cases h) (fun _ => rfl),hover⟩
  | add hb => exact ⟨h.add hc hi,hover⟩
  | render text hr =>
    obtain ⟨hrenders,nested,hn⟩ := renders_of_formatted hr
    refine ⟨h.still hi rfl (fun _ => rfl) (fun _ _ => rfl) (fun _ ho => ho) (fun text' he => ?_)
      (fun _ => rfl)
      (fun hb => by rw [hbatch rfl] at hb; cases hb),hover⟩
    obtain rfl := Stage.storing.inj he
    exact ⟨hrenders,w.disk,nested,hn⟩
  | unrendered fault hr =>
    exact ⟨h.still hi rfl (fun _ => rfl) (fun _ _ => rfl) (fun _ ho => ho) (by simp) (fun _ => rfl)
      (fun _ => rfl),hover⟩
  | store text d hr =>
    rcases g.save_index hover hu text with ⟨hcan,hs⟩ | ⟨-,fault,hs⟩
    · rw [hs] at hr
      obtain ⟨-,rfl⟩ := Prod.mk.inj hr
      refine ⟨h.store g hc hall hi hcan rfl,?_⟩
      refine hover.put (hG _ hu) (by simp [indexPlace]) ?_ _ _
      rw [g.indexPath_eq] at hcan
      exact ((canWrite_childOf g.linkFree (g.there _ hu) g.fileName.2.1 g.fileName_up).1 hcan).2.2
    · rw [hs] at hr; cases hr
  | unstored text fault d hr =>
    have hd : d = w.disk := by
      rcases g.save_index hover hu text with ⟨-,hs⟩ | ⟨-,fault',hs⟩ <;> rw [hs] at hr
      · cases hr
      · exact (Prod.mk.inj hr).2.symm
    subst hd
    exact ⟨h.still hi rfl (fun _ => rfl) (fun _ _ => rfl) (fun _ ho => ho) (by simp) (fun _ => rfl)
      (fun _ => rfl),hover⟩
  | settle =>
    refine ⟨h.still hi rfl (Table.entries_modify (fun state => { state with dirty := false })
      (fun _ => rfl) _ _)
      (fun hb => by rw [hbatch rfl] at hb; cases hb) (fun other ho => ?_) (by simp)
        (fun h => by cases h)
      (fun _ => rfl),hover⟩
    rw [indexes_settled,Table.state_modify] at ho
    split at ho
    · cases ho
    · exact ho
  | release fault =>
    refine ⟨h.still hi rfl (Table.entries_modify (fun state => { state with locked := false })
      (fun _ => rfl) _ _)
      (fun _ => hunlock) (fun other ho => (hunlock other).symm.trans ho) (by simp) (fun h => ?_)
      (fun _ => rfl),hover⟩
    cases fault with
    | none => cases h
    | some fault => rfl

end Filed

theorem coherent_nil : Coherent (fun _ => none) [] :=
  ⟨fun directory => by simp [Table.state,Table.get?,State.empty],by simp,
    fun directory x => by simp [Table.state,Table.get?,State.empty],
    fun directory => by simp [Table.state,Table.get?,State.empty],
    fun directory h => absurd rfl (Table.mem_directories.1 h)⟩

theorem filed_nil (s : Settings) (used : Path → Prop) (w : World) (h : w.indexes = []) :
    Filed s w.disk used (fun _ => none) w := by
  have hempty : ∀ directory, w.indexes.state directory = .empty := fun directory => by rw [h]; rfl
  refine ⟨by simp,fun _ directory hd => ?_,fun _ _ _ => rfl,fun _ _ => .inl rfl,by simp,
    fun _ directory hd => ?_,fun directory hd => ?_⟩ <;> rw [hempty] at hd
  · exact absurd rfl hd
  · exact absurd rfl hd
  · cases hd

end OperationHooks.Index
