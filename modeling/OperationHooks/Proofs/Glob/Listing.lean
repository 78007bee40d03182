import OperationHooks.Proofs.Disk.Saving
import OperationHooks.Proofs.Disk.Overlay
import OperationHooks.Proofs.Effect
import OperationHooks.Proofs.Glob
import OperationHooks.Proofs.Glob.Matching
/-!
The files of one directory that a pattern with a star in front finds: those whose names end in the
rest of it. They are found again, and in the same order, on every disk that has the same ones.
-/
set_option autoImplicit false

namespace OperationHooks
open Effect

theorem Disk.Tree.mem_names {t : Disk.Tree} {place : Disk.Place} {name : String} :
    name ∈ t.names place ↔ ∃ e, t.get? (place ++ [name]) = some e := by
  have hlast : ∀ q : Disk.Place, (q.dropLast = place ∧ q ≠ []) ∧ q.getLast? = some name ↔
      q = place ++ [name] := by
    intro q
    constructor
    · rintro ⟨⟨rfl,hq⟩,hlast⟩
      rw [List.getLast?_eq_some_getLast hq] at hlast
      rw [← Option.some.inj hlast,List.dropLast_append_getLast]
    · rintro rfl
      simp
  rw [Disk.Tree.get?_of_ne_nil (by simp),Disk.Tree.names,List.mem_filterMap]
  constructor
  · rintro ⟨⟨q,e⟩,hmem,hname⟩
    have hq : q = place ++ [name] := by
      refine (hlast q).1 ?_
      simpa [Option.ite_none_right_eq_some] using hname
    subst hq
    cases hget : t.entries.lookup (place ++ [name]) with
    | some e => exact ⟨e,rfl⟩
    | none => exact absurd (List.lookup_eq_none_iff.1 hget _ hmem) (by simp)
  · rintro ⟨e,he⟩
    obtain ⟨before,after,hentries,-⟩ := List.lookup_eq_some_iff.1 he
    refine ⟨(place ++ [name],e),by rw [hentries]; simp,?_⟩
    simp

theorem filterM_eq_ok {α ε : Type} {f : α → Except ε Bool} {xs ys : List α} :
    xs.filterM f = .ok ys ↔
      (∀ x ∈ xs, ∃ answer, f x = .ok answer) ∧ ys = xs.filter fun x => passes (f x) id := by
  have haux : ∀ (xs kept zs : List α), xs.filterAuxM f kept = .ok zs ↔
      (∀ x ∈ xs, ∃ answer, f x = .ok answer) ∧
        zs = (xs.filter fun x => passes (f x) id).reverse ++ kept := by
    intro xs
    induction xs with
    | nil =>
      intro kept zs
      rw [List.filterAuxM]
      simp [pure,Except.pure,eq_comm]
    | cons x rest ih =>
      intro kept zs
      rw [List.filterAuxM]
      cases hx : f x with
      | error e => simp [bind,Except.bind,hx]
      | ok answer =>
        simp only [bind,Except.bind,ih,List.forall_mem_cons,hx,List.filter_cons,passes]
        cases answer <;> simp
  unfold List.filterM
  cases hx : xs.filterAuxM f [] with
  | error e =>
    have hnone := fun zs => (haux xs [] zs).not.1 (by simp [hx])
    simp only [bind,Except.bind,reduceCtorEq,false_iff]
    rintro ⟨hall,-⟩
    exact hnone _ ⟨hall,rfl⟩
  | ok zs =>
    obtain ⟨hall,rfl⟩ := (haux xs [] zs).1 hx
    simp only [bind,Except.bind,pure,Except.pure,Except.ok.injEq,List.append_nil,
      List.reverse_reverse]
    exact ⟨fun he => ⟨hall,he.symm⟩,fun h => h.2.symm⟩

section Discover

variable {d d' : Disk} {root : Path} {pattern tail : String} {excluded : List String}
  {files : List Path}

theorem discover_eq_ok : discover d root pattern excluded = .ok files ↔
    ∃ found, Glob.find d root pattern = .ok found ∧
      (∀ q ∈ found, ∃ answer, d.isFile (root.join q.withoutDots) = .ok answer) ∧
      files = Path.sorted (((found.map fun q => root.join q.withoutDots).filter fun p =>
        passes (d.isFile p) id).filter fun p => !excluded.contains p.name) := by
  unfold discover
  cases hfind : Glob.find d root pattern with
  | error fault => simp [bind,Except.bind]
  | ok found =>
    have hall :
        (∀ p ∈ found.map fun q => root.join q.withoutDots, ∃ answer, d.isFile p = .ok answer) ↔
        ∀ q ∈ found, ∃ answer, d.isFile (root.join q.withoutDots) = .ok answer :=
          List.forall_mem_map
    have hkept :
        ∀ kept, (found.map fun q => root.join q.withoutDots).filterM d.isFile = .ok kept ↔ _ :=
      fun kept => filterM_eq_ok
    simp only [bind,Except.bind,pure,Except.pure,Except.ok.injEq,exists_eq_left',← hall]
    cases hf : (found.map fun q => root.join q.withoutDots).filterM d.isFile with
    | error fault =>
      have hnone := fun kept => (hkept kept).not.1 (by rw [hf]; simp)
      simp only [reduceCtorEq,false_iff]
      rintro ⟨hasked,-⟩
      exact hnone _ ⟨hasked,rfl⟩
    | ok kept =>
      obtain ⟨hasked,rfl⟩ := (hkept _).1 hf
      simp only [Except.ok.injEq]
      exact ⟨fun he => ⟨hasked,he.symm⟩,fun h => h.2.symm⟩

theorem Glob.anchor_of_mem_follow {components : List String} {found : List Path} {anchor : Anchor}
    (h : ∀ p ∈ found, p.anchor = anchor) : ∀ p ∈ Glob.follow d root components found,
      p.anchor = anchor := by
  induction components generalizing found with
  | nil => exact h
  | cons component rest ih =>
    refine ih fun p hp => ?_
    obtain ⟨q,hq,hp⟩ := List.mem_flatMap.1 hp
    obtain ⟨names,-,rfl⟩ := List.mem_map.1 hp
    exact h q hq

theorem Glob.anchor_of_mem_find {found : List Path} (h : Glob.find d root pattern = .ok found) :
    ∀ p ∈ found, p.anchor = Path.anchorOf pattern.toList := by
  have hfollow :
      ∀ components parts,
      ∀ p ∈ Glob.follow d root components [⟨Path.anchorOf pattern.toList,parts⟩],
      p.anchor = Path.anchorOf pattern.toList := fun components parts =>
    Glob.anchor_of_mem_follow (by simp)
  intro p hp
  simp only [Glob.find] at h
  split at h
  · obtain rfl := Except.ok.inj h; cases hp
  · split at h
    · obtain rfl := Except.ok.inj h
      split at hp
      · obtain rfl := List.mem_singleton.1 hp; rfl
      · cases hp
    · split at h
      · cases h
      · obtain rfl := Except.ok.inj h
        split at hp
        · exact hfollow _ _ p (List.mem_of_mem_drop hp)
        · exact hfollow _ _ p hp

def Glob.starred (d : Disk) (root : Path) (tail : String) : List String :=
  (Glob.namesIn d root).filter fun name => !Glob.isHidden name &&
    Glob.matchesName ("*" ++ tail) name

theorem Glob.mem_starred (h : Glob.IsLiteral tail.toList) {name : String} :
    name ∈ Glob.starred d root tail ↔
    name ∈ Glob.namesIn d root ∧ Glob.isHidden name = false ∧ ∃ stem, name = stem ++ tail := by
  rw [starred,List.mem_filter,Bool.and_eq_true,Glob.matchesName_star h,Bool.not_eq_true']

theorem Glob.find_star (htail : '/' ∉ tail.toList) (hne : tail.toList.head? ≠ some '*') :
    Glob.find d root ("*" ++ tail) = if Glob.isUnaskable d root then .error .nullCharacter
      else .ok ((Glob.starred d root tail).map fun name => ⟨.here,[name]⟩) := by
  have htext : ("*" ++ tail).toList = '*' :: tail.toList := by
    rw [String.toList_append,(by decide : "*".toList = ['*']),List.singleton_append]
  have hslash : '/' ∉ ("*" ++ tail).toList := by
    rw [htext]
    simp [htail]
  have hcomponents : Glob.components ("*" ++ tail) = ["*" ++ tail] := by
    rw [Glob.components,Disk.namesOf,Path.splitAt_of_not_mem hslash]
    have hlast : (some ("*" ++ tail).toList == some []) = false := by simp [htext]
    have hfull : ("*" ++ tail).toList.isEmpty = false := by simp [htext]
    simp only [List.getLast?_singleton,hlast,Bool.false_eq_true,if_false,
      List.filter_singleton,hfull]
    simp
  have hmagic : Glob.hasMagic ("*" ++ tail) = true := by
    rw [Glob.hasMagic,htext]
    simp
  have hrecursive : Glob.isRecursive ("*" ++ tail) = false := by
    rw [Glob.isRecursive,beq_eq_false_iff_ne]
    intro he
    have htoList := congrArg String.toList he
    rw [htext,(by decide : "**".toList = ['*','*'])] at htoList
    exact hne (by rw [(List.cons.inj htoList).2]; rfl)
  have hhidden : Glob.isHidden ("*" ++ tail) = false := by
    rw [Glob.isHidden,htext]
    rfl
  have hanchor : Path.anchorOf ("*" ++ tail).toList = .here := by
    rw [htext]
    rfl
  have hempty : ("*" ++ tail).isEmpty = false := by
    rw [← Bool.not_eq_true,String.isEmpty_iff]
    intro he
    rw [he] at htext
    cases htext
  have hroot : root.join ⟨.here,[]⟩ = root := by
    simp [Path.join,Path.isAbsolute]
  have hlisting : Glob.listing d false root = Glob.namesIn d root := by
    simp [Glob.listing]
  unfold Glob.find
  simp only [hempty,hcomponents,hanchor,Bool.false_eq_true,if_false,List.takeWhile_cons,hmagic,
    Bool.not_true,List.length_nil,List.drop_zero,List.isEmpty_cons,hroot]
  split
  · rfl
  · have hbeq : (["*" ++ tail] == ["**"]) = false := by
      rw [beq_eq_false_iff_ne]
      intro he
      rw [Glob.isRecursive,(List.cons.inj he).1] at hrecursive
      simp at hrecursive
    simp [Glob.follow,Glob.expand,hmagic,hrecursive,hhidden,hroot,hlisting,hbeq,Glob.starred]

end Discover

section Star

variable {d d' : Disk} {root : Path} {tail : String} {excluded : List String} {files : List Path}

theorem join_single {name : String} (hn : name ≠ ".") :
    root.join (Path.withoutDots ⟨.here,[name]⟩) = Disk.childOf root name := by
  simp [Path.withoutDots,Path.join,Path.isAbsolute,Disk.childOf,hn]

theorem ne_dot_of_not_isHidden {name : String} (h : Glob.isHidden name = false) : name ≠ "." := by
  rintro rfl
  simp [Glob.isHidden] at h

def Glob.starredFiles (d : Disk) (root : Path) (tail : String) (excluded : List String) :
    List String :=
  (Glob.starred d root tail).filter fun name =>
    passes (d.isFile (Disk.childOf root name)) id && !excluded.contains name

theorem discover_star (hl : Glob.IsLiteral tail.toList) (hs : '/' ∉ tail.toList) :
    discover d root ("*" ++ tail) excluded = .ok files ↔ Glob.isUnaskable d root = false ∧
      (∀ name ∈ Glob.starred d root tail, ∃ answer,
        d.isFile (Disk.childOf root name) = .ok answer) ∧
      files = Path.sorted ((Glob.starredFiles d root tail excluded).map (Disk.childOf root)) := by
  have hpaths : ((Glob.starred d root tail).map fun name => (⟨.here,[name]⟩ : Path)).map (fun q =>
      root.join q.withoutDots) = (Glob.starred d root tail).map (Disk.childOf root) := by
    rw [List.map_map]
    refine List.map_congr_left fun name hname => ?_
    exact join_single (ne_dot_of_not_isHidden ((Glob.mem_starred hl).1 hname).2.1)
  have hasked : (∀ q ∈ (Glob.starred d root tail).map fun name => (⟨.here,[name]⟩ : Path),
      ∃ answer, d.isFile (root.join q.withoutDots) = .ok answer) ↔
      ∀ name ∈ Glob.starred d root tail, ∃ answer,
        d.isFile (Disk.childOf root name) = .ok answer := by
    rw [List.forall_mem_map]
    refine forall₂_congr fun name hname => ?_
    rw [join_single (ne_dot_of_not_isHidden ((Glob.mem_starred hl).1 hname).2.1)]
  rw [discover_eq_ok,Glob.find_star hs fun he => hl.1 (List.mem_of_mem_head? he)]
  cases Glob.isUnaskable d root with
  | true => simp
  | false =>
    simp only [Bool.false_eq_true,if_false,Except.ok.injEq,exists_eq_left',hasked,hpaths,true_and]
    rw [List.filter_map,List.filter_map,List.filter_filter,Glob.starredFiles]
    simp only [Function.comp_def,Disk.name_childOf,Bool.and_comm]

theorem mem_starredFiles (hl : Glob.IsLiteral tail.toList) {name : String} :
    name ∈ Glob.starredFiles d root tail excluded ↔ name ∈ Glob.namesIn d root ∧
      Glob.isHidden name = false ∧ (∃ stem, name = stem ++ tail) ∧
      d.isFile (Disk.childOf root name) = .ok true ∧ name ∉ excluded := by
  have hpass : passes (d.isFile (Disk.childOf root name)) id = true ↔
      d.isFile (Disk.childOf root name) = .ok true := by
    cases d.isFile (Disk.childOf root name) <;> simp [passes]
  rw [Glob.starredFiles,List.mem_filter,Glob.mem_starred hl,Bool.and_eq_true,hpass]
  simp [and_assoc]

/-- Where no name but excluded ones has come or gone or changed its kind, the same files are
discovered. -/
theorem discover_star_congr (hl : Glob.IsLiteral tail.toList) (hs : '/' ∉ tail.toList)
    (hroot : root.Plain)
    (hparts : ∀ name ∈ Glob.namesIn d root, Path.IsPart name)
    (hunaskable : Glob.isUnaskable d' root = Glob.isUnaskable d root)
    (hnames : ∀ name, name ∉ excluded → (name ∈ Glob.namesIn d' root ↔ name ∈ Glob.namesIn d root))
    (hkinds : ∀ name, name ∉ excluded →
      d'.isFile (Disk.childOf root name) = d.isFile (Disk.childOf root name))
    (hexcluded : ∀ name ∈ excluded, ∃ answer, d'.isFile (Disk.childOf root name) = .ok answer)
    (h : discover d root ("*" ++ tail) excluded = .ok files) :
    discover d' root ("*" ++ tail) excluded = .ok files := by
  obtain ⟨hask,hasked,rfl⟩ := (discover_star hl hs).1 h
  refine (discover_star hl hs).2 ⟨hunaskable.trans hask,fun name hname => ?_,?_⟩
  · by_cases hn : name ∈ excluded
    · exact hexcluded name hn
    · rw [hkinds name hn]
      obtain ⟨hthere,hrest⟩ := (Glob.mem_starred hl).1 hname
      exact hasked name ((Glob.mem_starred hl).2 ⟨(hnames name hn).1 hthere,hrest⟩)
  · refine Path.sorted_congr (fun p hp => ?_) fun p => ?_
    · obtain ⟨name,hname,rfl⟩ := List.mem_map.1 hp
      have hpart := hparts name ((mem_starredFiles hl).1 hname).1
      exact fun part hm => (List.mem_append.1 hm).elim (hroot part) fun hm =>
        List.mem_singleton.1 hm ▸ hpart
    · simp only [List.mem_map]
      refine exists_congr fun name => and_congr_left fun _ => ?_
      rw [mem_starredFiles hl,mem_starredFiles hl]
      constructor
      · rintro ⟨hthere,hshown,hstem,hfile,hn⟩
        exact ⟨(hnames name hn).2 hthere,hshown,hstem,(hkinds name hn).trans hfile,hn⟩
      · rintro ⟨hthere,hshown,hstem,hfile,hn⟩
        exact ⟨(hnames name hn).1 hthere,hshown,hstem,(hkinds name hn).symm.trans hfile,hn⟩

end Star

end OperationHooks
