import OperationHooks.Proofs.Disk.Edited
import OperationHooks.Proofs.Glob.Listing

set_option autoImplicit false

namespace OperationHooks
open Disk

namespace Glob

variable {d d' : Disk} {root directory : Path} {components : List String} {component name : String}

theorem walk_directory_iff (h : SameShape d d') {followLast : Bool} {p : Path} {c : Place} :
    d'.walk followLast p = .ok (.entry c .directory) ↔
    d.walk followLast p = .ok (.entry c .directory) := by
  have hblank : ∀ d : Disk, d.walk followLast p = .ok (.entry c .directory) ↔
      (d.walk followLast p).map Found.blank = .ok (.entry c .directory) := fun d => by
    cases d.walk followLast p with
    | error fault => simp [Except.map]
    | ok found => cases found <;> simp [Except.map,Found.blank]
  rw [hblank,hblank,walk_shape h]

theorem mem_namesIn : name ∈ namesIn d directory ↔
    ∃ c, d.walk true directory = .ok (.entry c .directory) ∧
    ∃ e, d.tree.get? (c ++ [name]) = some e := by
  unfold namesIn
  split
  · rename_i c hw
    rw [Tree.mem_names,hw]
    constructor
    · exact fun he => ⟨c,rfl,he⟩
    · rintro ⟨c',hc,he⟩
      obtain ⟨rfl,-⟩ := Found.entry.inj (Except.ok.inj hc)
      exact he
  · rename_i hw
    simp only [List.not_mem_nil,false_iff]
    rintro ⟨c,hc,-⟩
    exact hw c hc

theorem mem_namesIn_shape (h : SameShape d d') : name ∈ namesIn d' directory ↔
    name ∈ namesIn d directory := by
  have hpresent : ∀ q, (∃ e, d'.tree.get? q = some e) ↔ ∃ e, d.tree.get? q = some e := fun q => by
    rw [← Option.isSome_iff_exists,← Option.isSome_iff_exists,
      ← Option.isSome_map (f := Entry.blank),h.entries q,
      Option.isSome_map]
  simp only [mem_namesIn,walk_directory_iff h,hpresent]

theorem isDirectoryAt_shape (h : SameShape d d') (p : Path) :
    isDirectoryAt d' p = isDirectoryAt d p := by
  rw [isDirectoryAt,isDirectoryAt,isDirectory_shape h]

theorem isThere_eq (d : Disk) (p : Path) :
    isThere d p = match (d.walk false p).map Found.blank with
      | .ok (.entry _ _) => true
      | _ => false := by
  unfold isThere
  cases d.walk false p with
  | error fault => rfl
  | ok found => cases found <;> rfl

theorem isThere_shape (h : SameShape d d') (p : Path) : isThere d' p = isThere d p := by
  rw [isThere_eq,isThere_eq,walk_shape h]

theorem isUnaskable_eq (d : Disk) (p : Path) :
    isUnaskable d p = match (d.walk true p).map Found.blank with
      | .error .nullCharacter => true
      | _ => false := by
  unfold isUnaskable
  cases d.walk true p with
  | error fault => rfl
  | ok found => rfl

theorem isUnaskable_shape (h : SameShape d d') (p : Path) : isUnaskable d' p = isUnaskable d p := by
  rw [isUnaskable_eq,isUnaskable_eq,walk_shape h]

theorem mem_listing_shape (h : SameShape d d') (directoriesOnly : Bool) :
    name ∈ listing d' directoriesOnly directory ↔ name ∈ listing d directoriesOnly directory := by
  rw [listing,listing,List.mem_filter,List.mem_filter,mem_namesIn_shape h,isDirectoryAt_shape h]

theorem mem_below_shape (h : SameShape d d') (directoriesOnly : Bool) (fuel : Nat)
    (names : List String) :
    names ∈ below d' directoriesOnly fuel directory ↔
    names ∈ below d directoriesOnly fuel directory := by
  induction fuel generalizing directory names with
  | zero => rfl
  | succ fuel ih =>
    simp only [below,List.mem_flatMap,List.mem_filter,mem_listing_shape h,
      List.mem_cons,List.mem_map,ih]

theorem mem_expand_shape (h : SameShape d d') (directoriesOnly : Bool) (names : List String) :
    names ∈ expand d' directoriesOnly component directory ↔
    names ∈ expand d directoriesOnly component directory := by
  unfold expand
  split
  · rw [isThere_shape h]
  · split
    · rw [List.mem_cons,List.mem_cons,mem_below_shape h]
    · simp only [List.mem_map,List.mem_filter,mem_listing_shape h]

theorem mem_follow_shape (h : SameShape d d') {found found' : List Path}
    (hf : ∀ p, p ∈ found' ↔ p ∈ found)
    (p : Path) : p ∈ follow d' root components found' ↔ p ∈ follow d root components found := by
  induction components generalizing found found' with
  | nil => exact hf p
  | cons component rest ih =>
    refine ih fun q => ?_
    simp only [List.mem_flatMap,List.mem_map,mem_expand_shape h,hf]

/-- Two stars alone lead to where they start first. -/
theorem drop_follow (d : Disk) (root start : Path) : (follow d root ["**"] [start]).drop 1 =
    (below d false maxPathBytes (root.join start)).map fun names =>
      { start with parts := start.parts ++ names } := by
  have hmagic : hasMagic "**" = true := by decide
  have hrecursive : isRecursive "**" = true := by decide
  simp [follow,expand,hmagic,hrecursive]

theorem find_shape (h : SameShape d d') {pattern : String} {found : List Path}
    (hfind : find d root pattern = .ok found) :
    ∃ found', find d' root pattern = .ok found' ∧ ∀ p, p ∈ found' ↔ p ∈ found := by
  simp only [find] at hfind ⊢
  split at hfind
  · obtain rfl := Except.ok.inj hfind
    exact ⟨[],by rw [if_pos ‹_›],fun _ => Iff.rfl⟩
  rw [if_neg ‹_›]
  split at hfind
  · rw [if_pos ‹_›]
    obtain rfl := Except.ok.inj hfind
    exact ⟨_,rfl,fun p => by rw [isThere_shape h]⟩
  rw [if_neg ‹_›,isUnaskable_shape h]
  split at hfind
  · cases hfind
  rw [if_neg ‹_›]
  obtain rfl := Except.ok.inj hfind
  refine ⟨_,rfl,fun p => ?_⟩
  split
  · rename_i hstars
    rw [Bool.and_eq_true,beq_iff_eq] at hstars
    rw [hstars.1,drop_follow,drop_follow]
    simp only [List.mem_map,mem_below_shape h]
  · exact mem_follow_shape h (fun _ => Iff.rfl) p

end Glob

/-- On disks of one shape the same files are discovered. -/
theorem discover_shape {d d' : Disk} {root : Path} {pattern : String} {excluded : List String}
    {files : List Path}
    (h : SameShape d d') (hroot : root.Plain) (hnames : HasNames d)
    (hfound : discover d root pattern excluded = .ok files) :
      discover d' root pattern excluded = .ok files := by
  obtain ⟨found,hfind,hasked,rfl⟩ := discover_eq_ok.1 hfound
  obtain ⟨found',hfind',hmem⟩ := Glob.find_shape h hfind
  refine discover_eq_ok.2 ⟨found',hfind',fun q hq => ?_,Path.sorted_congr (fun p hp => ?_)
    fun p => ?_⟩
  · rw [isFile_shape h]
    exact hasked q ((hmem q).1 hq)
  · obtain ⟨-,bytes,hread⟩ := mem_discover hfound (Path.mem_sorted.2 hp)
    exact plain_of_read hnames
      (dotless_of_mem_discover hroot.dotless hfound (Path.mem_sorted.2 hp)) hread
  · simp only [List.mem_filter,List.mem_map,hmem,isFile_shape h]

end OperationHooks
