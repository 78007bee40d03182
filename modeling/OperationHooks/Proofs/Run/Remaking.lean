import OperationHooks.Proofs.Disk.Way
import OperationHooks.Proofs.Glob.Listing
import OperationHooks.Proofs.Run.Preparation
/-!
The tree that is left once the output directories have been made anew, place by place. It goes by
what stands outside of these directories, so making them anew once more leads to the same tree.
-/
set_option autoImplicit false

namespace OperationHooks.Run
open Effect Disk

/-- Every entry is in a directory, which is in a directory, and so on. -/
def Closed (t : Tree) : Prop := ∀ q e, t.get? q = some e →
  ∀ r, Tree.isBelow r q = true → t.get? r = some .directory

def Reached (d : Disk) (directory : Path) : Prop := ∀ q e, d.tree.get? q = some e →
  Tree.isBelow (placeOf d directory) q = true → ∀ r ∈ wayOf d directory,
    d.tree.get? r = some .directory

def anew (d : Disk) (directories : List Path) (q : Place) : Option Disk.Entry :=
  if directories.any fun directory => (wayOf d directory).contains q then some .directory
  else if directories.any fun directory => Tree.isBelow (placeOf d directory) q then none
  else d.tree.get? q

theorem closed_of_entries {t : Tree} (h : (t.entries.all fun (q,_) =>
    (List.range q.length).all fun n => t.get? (q.take n) == some .directory) = true) :
      Closed t := by
  intro q e he r hr
  obtain ⟨hpre,hne⟩ := Tree.isBelow_iff.1 hr
  have hq : q ≠ [] := by rintro rfl; exact hne (List.prefix_nil.1 hpre)
  have hlength : r.length < q.length :=
    Nat.lt_of_le_of_ne hpre.length_le fun hl => hne (hpre.eq_of_length hl)
  rw [Tree.get?_of_ne_nil hq] at he
  obtain ⟨before,after,hsplit,-⟩ := List.lookup_eq_some_iff.1 he
  have hall := List.all_eq_true.1 h (q,e) (by rw [hsplit]; simp)
  rw [List.prefix_iff_eq_take.1 hpre]
  simpa using List.all_eq_true.1 hall r.length (List.mem_range.2 hlength)

section Anew

variable {d d' : Disk} {directories : List Path} {directory : Path} {q : Place}

theorem anew_of_way (hd : directory ∈ directories) (hq : q ∈ wayOf d directory) :
    anew d directories q = some .directory := by
  have hany : (directories.any fun directory => (wayOf d directory).contains q) = true :=
    List.any_eq_true.2 ⟨directory,hd,by simpa using hq⟩
  rw [anew,if_pos hany]

theorem anew_of_below (hway : ∀ directory ∈ directories, q ∉ wayOf d directory)
    (hd : directory ∈ directories) (hb : Tree.isBelow (placeOf d directory) q = true) :
    anew d directories q = none := by
  have hnone : ¬ (directories.any fun directory => (wayOf d directory).contains q) = true := by
    simpa using hway
  have hany : (directories.any fun directory => Tree.isBelow (placeOf d directory) q) = true :=
    List.any_eq_true.2 ⟨directory,hd,hb⟩
  rw [anew,if_neg hnone,if_pos hany]

theorem anew_of_outside (hway : ∀ directory ∈ directories, q ∉ wayOf d directory)
    (hout : ∀ directory ∈ directories, Tree.isBelow (placeOf d directory) q = false) :
    anew d directories q = d.tree.get? q := by
  have hnone : ¬ (directories.any fun directory => (wayOf d directory).contains q) = true := by
    simpa using hway
  have hnot : ¬ (directories.any fun directory => Tree.isBelow (placeOf d directory) q) = true := by
    simpa using hout
  rw [anew,if_neg hnone,if_neg hnot]

theorem anew_cases (d : Disk) (directories : List Path) (q : Place) :
    (∃ directory ∈ directories, q ∈ wayOf d directory) ∨
      (∀ directory ∈ directories, q ∉ wayOf d directory) ∧
        ((∃ directory ∈ directories, Tree.isBelow (placeOf d directory) q = true) ∨
          ∀ directory ∈ directories, Tree.isBelow (placeOf d directory) q = false) := by
  by_cases hway : ∃ directory ∈ directories, q ∈ wayOf d directory
  · exact .inl hway
  · refine .inr ⟨fun directory hd hq => hway ⟨directory,hd,hq⟩,?_⟩
    by_cases hb : ∃ directory ∈ directories, Tree.isBelow (placeOf d directory) q = true
    · exact .inl hb
    · exact .inr fun directory hd => Bool.eq_false_iff.2 fun h => hb ⟨directory,hd,h⟩

theorem reached_of_closed (hc : Closed d.tree) (hf : Founded d directory)
    (hdot : directory.Dotless) :
    Reached d directory := fun q e he hb r hr =>
  (hf.left hdot hr).elim (fun hpre => hc q e he r (Tree.isBelow_of_prefix_of_isBelow hpre hb)) id

theorem reached_of_hasDirectory (hd : LinkFree d.tree) (h : HasDirectory d directory) :
    Reached d directory :=
  fun _ _ _ _ => ((hasDirectory_iff_way hd).1 h).2

end Anew

section One

variable {files : List Path} {directory : Path} {w w' : World}

theorem present_of_way (hl : LinkFree w.disk.tree) (ha : Admitted directory)
    (hdir : ∀ q ∈ wayOf w.disk directory, w.disk.tree.get? q = some .directory) :
    w.disk.isPresent directory = .ok true :=
  isPresent_of_walk ((hasDirectory_iff_way hl).2 ⟨ha,hdir⟩)

theorem get?_of_cleanDirectory (hl : LinkFree w.disk.tree) (hdot : directory.Dotless)
    (hreached : Reached w.disk directory) (h : run (cleanDirectory files directory) w = (.ok (),w'))
    (q : Place) : w'.disk.tree.get? q = anew w.disk [directory] q := by
  have hr := remade_of_cleanDirectory hl hdot h
  obtain ⟨hadmitted,hdir⟩ := (hasDirectory_iff_way (hr.swept.linkFree hl)).1 hr.there
  rw [wayOf_eq hr.here] at hdir
  by_cases hq : q ∈ wayOf w.disk directory
  · rw [anew_of_way List.mem_cons_self hq]
    exact hdir q hq
  have hway : ∀ other ∈ [directory], q ∉ wayOf w.disk other := by simpa using hq
  have hkept : Tree.isBelow (placeOf w.disk directory) q = false → anew w.disk [directory] q =
      w.disk.tree.get? q := fun hb => anew_of_outside hway (by simpa using hb)
  rcases hr.effect with ⟨habsent,-⟩ | hcleared
  · obtain ⟨_,-,-,⟨-,hm⟩ | ⟨hpresent,-⟩⟩ := cleanDirectory_ok h
    · have hsame := get?_of_makeDirectories hl directory hq
      rw [hm] at hsame
      cases hb : Tree.isBelow (placeOf w.disk directory) q with
      | false => rw [hkept hb]; exact hsame
      | true =>
        rw [anew_of_below hway List.mem_cons_self hb,hsame]
        cases he : w.disk.tree.get? q with
        | none => rfl
        | some e =>
          have hpresent := present_of_way hl hadmitted (hreached q e he hb)
          cases habsent.symm.trans hpresent
    · cases habsent.symm.trans hpresent
  · rw [hcleared.2 q]
    cases hb : Tree.isBelow (placeOf w.disk directory) q with
    | false => rw [hkept hb]; rfl
    | true => rw [anew_of_below hway List.mem_cons_self hb]; rfl

theorem removable_of_cleanDirectory (hl : LinkFree w.disk.tree) (hdot : directory.Dotless)
    (hreached : Reached w.disk directory) (hfounded : Founded w.disk directory)
    (h : run (cleanDirectory files directory) w = (.ok (),w')) : Removable w.disk directory := by
  have hr := remade_of_cleanDirectory hl hdot h
  obtain ⟨hadmitted,-⟩ := (hasDirectory_iff_way (hr.swept.linkFree hl)).1 hr.there
  obtain ⟨_,-,-,⟨habsent,-⟩ | ⟨-,d,hremove,-⟩⟩ := cleanDirectory_ok h
  · have hgap : ¬ ∀ q ∈ wayOf w.disk directory, w.disk.tree.get? q = some .directory :=
      fun hdir => by
      cases habsent.symm.trans (present_of_way hl hadmitted hdir)
    refine ⟨fun hnil => hgap ?_,fun hlast => hgap ?_,fun q hq => Bool.eq_false_iff.2 fun hb => ?_⟩
    · rw [wayOf,hnil]; simp
    · obtain ⟨front,hfront⟩ := List.getLast?_eq_some_iff.1 hlast
      rw [wayOf,hfront,placesOf_append]
      simpa using hfounded front [] hfront
    · rcases hfounded.left hdot hq with hpre | hdir
      · obtain ⟨hpre',hne⟩ := Tree.isBelow_iff.1 hb
        exact hne (hpre'.eq_of_length (Nat.le_antisymm hpre'.length_le hpre.length_le))
      · exact hgap (hreached q _ hdir hb)
  · exact removable_of_removeTree hl hremove

/-- A later directory is still reached when an earlier one has been made anew. -/
theorem Reached.step {later : Path} (hl : LinkFree w.disk.tree) (hdot : directory.Dotless)
    (hdot' : later.Dotless) (hup : directory.Upright) (hup' : later.Upright)
    (hne : ¬ placeOf w.disk later <+: placeOf w.disk directory)
    (hreached : Reached w.disk directory)
    (hlater : Reached w.disk later) (h : run (cleanDirectory files directory) w = (.ok (),w')) :
    Reached w'.disk later := by
  have hr := remade_of_cleanDirectory hl hdot h
  intro q e he hb r hm
  rw [placeOf_eq hr.here] at hb
  rw [wayOf_eq hr.here] at hm
  rw [get?_of_cleanDirectory hl hdot hreached h] at he ⊢
  have hwayq : ∀ other ∈ [directory], q ∉ wayOf w.disk other := by
    simp only [List.mem_singleton,forall_eq]
    intro hq
    exact hne ((Tree.isBelow_iff.1 hb).1.trans (above_of_upright hup hdot hq))
  have hout : Tree.isBelow (placeOf w.disk directory) q = false :=
    Bool.eq_false_iff.2 fun hbelow => by
    rw [anew_of_below hwayq List.mem_cons_self hbelow] at he
    cases he
  rw [anew_of_outside hwayq (by simpa using hout)] at he
  by_cases hway : r ∈ wayOf w.disk directory
  · exact anew_of_way List.mem_cons_self hway
  · rw [anew_of_outside (by simpa using hway)]
    · exact hlater q e he hb r hm
    · simp only [List.mem_singleton,forall_eq]
      refine Bool.eq_false_iff.2 fun hbelow => ?_
      have hrq : r <+: q := (above_of_upright hup' hdot' hm).trans (Tree.isBelow_iff.1 hb).1
      rw [Tree.isBelow_of_isBelow_of_prefix hbelow hrq] at hout
      cases hout

end One

section All

variable {files directories : List Path} {directory : Path} {w w₁ w' v : World} {q : Place}

structure Cleanable (d : Disk) (directories : List Path) : Prop where
  linkFree : LinkFree d.tree
  dotless : ∀ directory ∈ directories, directory.Dotless
  upright : directories.Pairwise fun first second => first.Upright ∧ second.Upright
  inOrder : InOrder d directories
  reached : ∀ directory ∈ directories, Reached d directory

theorem Cleanable.tail {rest : List Path} (hc : Cleanable w.disk (directory :: rest))
    (h : run (cleanDirectory files directory) w = (.ok (),w')) : Cleanable w'.disk rest := by
  obtain ⟨hl,hdots,hup,horder,hreached⟩ := hc
  obtain ⟨hdot,hdots⟩ := List.forall_mem_cons.1 hdots
  obtain ⟨hups,huprest⟩ := List.pairwise_cons.1 hup
  obtain ⟨hne,horderest⟩ := List.pairwise_cons.1 horder
  obtain ⟨hfirst,hrest⟩ := List.forall_mem_cons.1 hreached
  have hr := remade_of_cleanDirectory hl hdot h
  have hplace : ∀ q, placeOf w'.disk q = placeOf w.disk q := placeOf_eq hr.here
  refine ⟨hr.swept.linkFree hl,hdots,huprest,by simpa only [InOrder,hplace] using horderest,?_⟩
  exact fun later hm => Reached.step hl hdot (hdots later hm) (hups later hm).1 (hups later hm).2
    (hne later hm) hfirst (hrest later hm) h

theorem anew_anew {rest : List Path} (hc : Cleanable w.disk (directory :: rest))
    (h : run (cleanDirectory files directory) w = (.ok (),w')) (q : Place) :
    anew w'.disk rest q = anew w.disk (directory :: rest) q := by
  have hdot := hc.dotless directory List.mem_cons_self
  have hr := remade_of_cleanDirectory hc.linkFree hdot h
  have hget := get?_of_cleanDirectory hc.linkFree hdot (hc.reached directory List.mem_cons_self) h q
  have hway := wayOf_eq hr.here
  have hplace := placeOf_eq hr.here
  rcases anew_cases w.disk rest q with ⟨other,ho,hq⟩ | ⟨hnot,hcases⟩
  · rw [anew_of_way ho (hway other ▸ hq),anew_of_way (List.mem_cons_of_mem _ ho) hq]
  have hnot' : ∀ other ∈ rest, q ∉ wayOf w'.disk other := fun other ho => hway other ▸ hnot other ho
  by_cases hq : q ∈ wayOf w.disk directory
  · have hout : ∀ other ∈ rest, Tree.isBelow (placeOf w'.disk other) q = false := by
      intro other ho
      rw [hplace]
      refine Bool.eq_false_iff.2 fun hb => (List.pairwise_cons.1 hc.inOrder).1 other ho ?_
      have hup := ((List.pairwise_cons.1 hc.upright).1 other ho).1
      exact (Tree.isBelow_iff.1 hb).1.trans (above_of_upright hup hdot hq)
    rw [anew_of_outside hnot' hout,hget,anew_of_way List.mem_cons_self hq,
      anew_of_way List.mem_cons_self hq]
  have hall : ∀ other ∈ directory :: rest, q ∉ wayOf w.disk other :=
    List.forall_mem_cons.2 ⟨hq,hnot⟩
  have hone : ∀ other ∈ [directory], q ∉ wayOf w.disk other := by simpa using hq
  rcases hcases with ⟨other,ho,hb⟩ | hout
  · rw [anew_of_below hnot' ho (by rw [hplace]; exact hb),
      anew_of_below hall (List.mem_cons_of_mem _ ho) hb]
  have hout' : ∀ other ∈ rest, Tree.isBelow (placeOf w'.disk other) q = false := fun other ho => by
    rw [hplace]; exact hout other ho
  rw [anew_of_outside hnot' hout',hget]
  cases hb : Tree.isBelow (placeOf w.disk directory) q with
  | true => rw [anew_of_below hone List.mem_cons_self hb,anew_of_below hall List.mem_cons_self hb]
  | false =>
    rw [anew_of_outside hone (by simpa using hb),
      anew_of_outside hall (List.forall_mem_cons.2 ⟨hb,hout⟩)]

theorem get?_of_clean (hc : Cleanable w.disk directories)
    (h : run (clean files directories) w = (.ok (),w')) (q : Place) :
    w'.disk.tree.get? q = anew w.disk directories q := by
  induction directories generalizing w with
  | nil =>
    rw [clean_nil] at h
    obtain ⟨-,rfl⟩ := Prod.mk.inj h
    rfl
  | cons first rest ih =>
    obtain ⟨w₁,hfirst,hrest⟩ := clean_cons_ok.1 h
    rw [ih (hc.tail hfirst) hrest]
    exact anew_anew hc hfirst q

theorem removable_of_clean (hc : Cleanable w.disk directories)
    (hfounded : ∀ directory ∈ directories, Founded w.disk directory)
    (h : run (clean files directories) w = (.ok (),w')) :
    ∀ directory ∈ directories, Removable w.disk directory := by
  induction directories generalizing w with
  | nil => simp
  | cons first rest ih =>
    obtain ⟨w₁,hfirst,hrest⟩ := clean_cons_ok.1 h
    have hdot := hc.dotless first List.mem_cons_self
    have hhere := (remade_of_cleanDirectory hc.linkFree hdot hfirst).here
    refine List.forall_mem_cons.2 ⟨removable_of_cleanDirectory hc.linkFree hdot
      (hc.reached first List.mem_cons_self) (hfounded first List.mem_cons_self) hfirst,
        fun later hm => ?_⟩
    -- A later directory is upright, so nothing has to be there for it to be founded.
    have hups := fun later hm => ((List.pairwise_cons.1 hc.upright).1 later hm).2
    exact .of_here hhere
      (ih (hc.tail hfirst) (fun later hm => founded_of_upright (hups later hm)) hrest later hm)

theorem no_file_of_clean (hl : LinkFree w.disk.tree) (hrooted : Rooted w.disk.tree)
    (hdots : ∀ q ∈ directories, q.Dotless)
    (hups : directories.Pairwise fun first second => first.Upright ∧ second.Upright)
    (hfounded : ∀ q ∈ directories, Founded w.disk q)
    (h : run (clean files directories) w = (.ok (),w')) (hd : directory ∈ directories)
    (hq : Tree.isBelow (placeOf w.disk directory) q = true) (bytes : List UInt8)
    (executable : Bool) :
    w'.disk.tree.get? q ≠ some (.file bytes executable) := by
  induction directories generalizing w with
  | nil => cases hd
  | cons first rest ih =>
    obtain ⟨w₁,hfirst,hrest⟩ := clean_cons_ok.1 h
    obtain ⟨hd₁,hdrest⟩ := List.forall_mem_cons.1 hdots
    obtain ⟨hups₁,huprest⟩ := List.pairwise_cons.1 hups
    have hr := remade_of_cleanDirectory hl hd₁ hfirst
    have hl₁ := hr.swept.linkFree hl
    rcases List.mem_cons.1 hd with rfl | hd
    · intro hfile
      have hfile₁ : w₁.disk.tree.get? q = some (.file bytes executable) :=
        ((swept_of_clean hl₁ hdrest hrest).2 q _ hfile).resolve_left (by simp)
      rcases hr.effect with ⟨habsent,hgrown⟩ | hcleared
      · have hfile₀ := (swept_of_grown hgrown.2 q _ hfile₁).resolve_left (by simp)
        have hadmitted := ((hasDirectory_iff_way hl₁).1 hr.there).1
        exact no_file_of_absent hl hrooted (hfounded _ List.mem_cons_self) hd₁ hadmitted
          habsent hq _ _ hfile₀
      · rw [hcleared.2 q,if_pos hq] at hfile₁; cases hfile₁
    · refine ih hl₁ ?_ hdrest huprest
        (fun later hm => founded_of_upright (hups₁ later hm).2) hrest hd ?_
      · exact hr.effect.elim (fun h => hrooted.grown h.2.2) (fun h => hrooted.cleared h.2)
      · rw [placeOf_eq hr.here]; exact hq

end All

section Again

variable {d d' : Disk} {files directories : List Path} {directory p : Path} {w w₁ w' v : World}

theorem settled_of_askable (hl : LinkFree d.tree) (hn : hasNull p.text = false) :
    settled d p = .ok (placeOf d p) := by
  simp [settled,hn,settle_linkFree hl]

theorem swept_of_removeTree (h : run (removeTree p) d = (.ok (),d')) :
    d'.here = d.here ∧ Swept d.tree d'.tree := by
  obtain ⟨-,-,c,-,-,rfl⟩ := removeTree_spec h
  refine ⟨rfl,fun q e he => ?_⟩
  rcases Tree.get?_remove_cases (d.tree.clear c) c q with hkept | ⟨-,hgone⟩
  · rw [hkept,Tree.get?_clear] at he
    split at he
    · cases he
    · exact .inr he
  · rw [hgone] at he; cases he

theorem isPresent_open (hl : LinkFree d.tree) (ha : Admitted p) (ho : Open d p) :
    d.isPresent p = .ok false ∨ d.isPresent p = .ok true ∧ HasDirectory d p := by
  unfold isPresent entry?
  rcases walk_open hl ha ho true with hw | ⟨q,hw⟩ | hw
  · exact .inr ⟨by rw [hw]; rfl,hw⟩
  · exact .inl (by rw [hw]; rfl)
  · exact .inl (by rw [hw]; rfl)

theorem onDisk_about {α : Type} {path : Path} {action : Disk.Action α} {a : α}
    (h : run action w.disk = (.ok a,d')) :
    run (Work.onDisk (.about path action)) w = (.ok a,{ w with disk := d' }) := by
  rw [run_onDisk,run_about,h]; rfl

theorem cleanDirectory_total (hl : LinkFree w.disk.tree) (ha : Admitted directory)
    (ho : Open w.disk directory) (hr : Removable w.disk directory)
    (hfiles : ∀ p ∈ files, hasNull p.text = false)
    (hapart : ∀ p ∈ files, Tree.isBelow (placeOf w.disk directory) (placeOf w.disk p) = false) :
    ∃ w', run (cleanDirectory files directory) w = (.ok (),w') := by
  have hsettled := settled_of_askable hl ha.askable.1
  have hholds : holdsAny w.disk (placeOf w.disk directory) files = .ok false :=
    holdsAny_eq_false.2 fun p hp => ⟨_,settled_of_askable hl (hfiles p hp),hapart p hp⟩
  rw [run_cleanDirectory]
  simp only [hsettled,hholds]
  rcases isPresent_open hl ha ho with hp | ⟨hp,hthere⟩
  · obtain ⟨d,hm⟩ := makeDirectories_total hl ha ho
    rw [hp]
    exact ⟨_,onDisk_about hm⟩
  · obtain ⟨d,hremove⟩ := removeTree_total hl hthere hr
    obtain ⟨hhere,hswept⟩ := swept_of_removeTree hremove
    obtain ⟨d',hm⟩ := makeDirectories_total (hswept.linkFree hl) ha (ho.swept hhere hswept)
    let noted := w.note .debug s!"Removing stale output {directory}"
    have hremoved : run (Work.onDisk (.about directory (removeTree directory))) noted =
        (.ok (),{ noted with disk := d }) := onDisk_about hremove
    rw [hp]
    exact ⟨_,bind_eq_ok.2 ⟨(),_,hremoved,onDisk_about hm⟩⟩

theorem clean_total (hl : LinkFree w.disk.tree) (hdots : ∀ q ∈ directories, q.Dotless)
    (ha : ∀ q ∈ directories, Admitted q) (ho : ∀ q ∈ directories, Open w.disk q)
    (hr : ∀ q ∈ directories, Removable w.disk q) (hfiles : ∀ p ∈ files, hasNull p.text = false)
    (hapart : ∀ q ∈ directories, ∀ p ∈ files,
      Tree.isBelow (placeOf w.disk q) (placeOf w.disk p) = false) :
    ∃ w', run (clean files directories) w = (.ok (),w') := by
  induction directories generalizing w with
  | nil => exact ⟨w,by rw [clean_nil]; rfl⟩
  | cons first rest ih =>
    obtain ⟨hdot,hdots⟩ := List.forall_mem_cons.1 hdots
    obtain ⟨ha₁,ha⟩ := List.forall_mem_cons.1 ha
    obtain ⟨ho₁,ho⟩ := List.forall_mem_cons.1 ho
    obtain ⟨hr₁,hr⟩ := List.forall_mem_cons.1 hr
    obtain ⟨hapart₁,hapart⟩ := List.forall_mem_cons.1 hapart
    obtain ⟨w₁,hfirst⟩ := cleanDirectory_total hl ha₁ ho₁ hr₁ hfiles hapart₁
    have hremade := remade_of_cleanDirectory hl hdot hfirst
    have hplace := placeOf_eq hremade.here
    obtain ⟨w',hrest⟩ := ih (hremade.swept.linkFree hl) hdots ha
      (fun q hq => (ho q hq).swept hremade.here hremade.swept)
      (fun q hq => .of_here hremade.here.symm (hr q hq))
      fun q hq p hp => by rw [hplace,hplace]; exact hapart q hq p hp
    exact ⟨w',clean_cons_ok.2 ⟨w₁,hfirst,hrest⟩⟩

theorem hasNull_of_clean (hne : directories ≠ [])
    (h : run (clean files directories) w = (.ok (),w')) :
    ∀ p ∈ files, hasNull p.text = false := by
  intro p hp
  obtain ⟨first,rest,rfl⟩ := List.exists_cons_of_ne_nil hne
  obtain ⟨w₁,hfirst,-⟩ := clean_cons_ok.1 h
  obtain ⟨place,-,hh,-⟩ := cleanDirectory_ok hfirst
  obtain ⟨a,ha,-⟩ := not_below_of_holdsAny hh hp
  unfold settled at ha
  cases hn : hasNull p.text with
  | false => rfl
  | true => rw [hn] at ha; cases ha

/-- Making the directories anew once more leads to the same tree, whatever has happened below them
as long as they are there. -/
theorem clean_again (hc : Cleanable w.disk directories) (hne : directories ≠ [])
    (hfounded : ∀ q ∈ directories, Founded w.disk q)
    (h : run (clean files directories) w = (.ok (),w₁)) (hhere : v.disk.here = w₁.disk.here)
    (hl : LinkFree v.disk.tree) (hthere : ∀ q ∈ directories, HasDirectory v.disk q)
    (hout : ∀ q, (∀ directory ∈ directories, Tree.isBelow (placeOf w₁.disk directory) q = false) →
      v.disk.tree.get? q = w₁.disk.tree.get? q) :
    ∃ v₁, run (clean files directories) v = (.ok (),v₁) ∧ Changed Tree.Same w₁.disk v₁.disk := by
  have hh₁ := (swept_of_clean hc.linkFree hc.dotless h).1
  have hh : v.disk.here = w.disk.here := hhere.trans hh₁
  have hplace := placeOf_eq hh
  have hway := wayOf_eq hh
  have hadmitted : ∀ q ∈ directories, Admitted q := fun q hq =>
    ((hasDirectory_iff_way hl).1 (hthere q hq)).1
  have hagain : Cleanable v.disk directories := by
    refine ⟨hl,hc.dotless,hc.upright,?_,fun q hq => reached_of_hasDirectory hl (hthere q hq)⟩
    simpa only [InOrder,hplace] using hc.inOrder
  have hapart := apart_of_clean hc.linkFree hc.dotless h
  obtain ⟨v₁,hv⟩ := clean_total hl hc.dotless hadmitted
    (fun q hq => open_of_hasDirectory hl (hthere q hq))
    (fun q hq => .of_here hh.symm (removable_of_clean hc hfounded h q hq)) (hasNull_of_clean hne h)
    fun q hq p hp => by rw [hplace,hplace]; exact hapart q hq p hp
  refine ⟨v₁,hv,(swept_of_clean hl hc.dotless hv).1.trans hhere,fun q => ?_⟩
  rw [get?_of_clean hagain hv,get?_of_clean hc h]
  rcases anew_cases w.disk directories q with ⟨other,ho,hq⟩ | ⟨hnot,⟨other,ho,hb⟩ | hnone⟩
  · rw [anew_of_way ho hq,anew_of_way ho (hway other ▸ hq)]
  · rw [anew_of_below hnot ho hb,anew_of_below (fun other ho => hway other ▸ hnot other ho) ho
      (by rw [hplace]; exact hb)]
  · have hget := get?_of_clean hc h q
    rw [anew_of_outside (fun other ho => hway other ▸ hnot other ho)
      (fun other ho => by rw [hplace]; exact hnone other ho),← hget]
    exact hout q fun other ho => by rw [placeOf_eq hh₁]; exact hnone other ho

end Again

section Directories

variable {o : HookOptions} {g : HookGenerator} {files : List Path} {d : Disk}

theorem founded_outputDirectories (hg : g.Follows o)
    (h : ∀ root, o.outputPath = some root → Founded d root) :
    ∀ directory ∈ g.outputDirectories files, Founded d directory := by
  intro directory hd
  obtain ⟨p,-,rfl⟩ := HookGenerator.mem_outputDirectories.1 hd
  rw [HookGenerator.outputDirectory_eq hg]
  cases hroot : o.outputPath with
  | none => exact founded_of_upright (Path.upright_fold _)
  | some root => exact h root hroot

theorem founded_of_discover {root : Path} {pattern : String} {excluded : List String}
    (hl : LinkFree d.tree)
    (h : discover d root pattern excluded = .ok files) (hne : files ≠ [])
    (hrelative : Path.anchorOf pattern.toList = .here) : Founded d root := by
  obtain ⟨p,hp⟩ := List.exists_mem_of_ne_nil _ hne
  obtain ⟨-,bytes,hread⟩ := mem_discover h hp
  obtain ⟨found,hfind,-,rfl⟩ := discover_eq_ok.1 h
  obtain ⟨hp,-⟩ := List.mem_filter.1 (Path.mem_sorted.1 hp)
  obtain ⟨q,hq,rfl⟩ := List.mem_map.1 (List.mem_filter.1 hp).1
  obtain ⟨c,executable,hwalk⟩ := read_eq_ok.1 hread
  have hanchor : q.withoutDots.anchor = .here :=
    (Glob.anchor_of_mem_find hfind q hq).trans hrelative
  exact (founded_of_walk hl hwalk).of_join (by simp [Path.isAbsolute,hanchor])

theorem founded_outputPath (h : Founded d o.root)
    (hup : ∀ root, o.outputRoot = some root → ".." ∉ (Path.ofString root).parts) {directory : Path}
    (hpath : o.outputPath = some directory) : Founded d directory := by
  obtain ⟨text,htext,rfl⟩ := Option.map_eq_some_iff.1 hpath
  exact h.join (hup text (Option.filter_eq_some_iff.1 htext).1)

theorem founded_of_relative (hg : g.Follows o) (hl : LinkFree d.tree)
    (hup : ∀ root, o.outputRoot = some root → ".." ∉ (Path.ofString root).parts)
    (hfounded : ∀ directory, o.outputPath = some directory →
      Path.anchorOf o.pattern.toList ≠ .here →
      Founded d directory)
    (hfound : g.discover d = .ok files) (hne : files ≠ []) :
    ∀ directory ∈ g.outputDirectories files, Founded d directory := by
  refine founded_outputDirectories hg fun directory hpath => ?_
  by_cases hrelative : Path.anchorOf o.pattern.toList = .here
  · exact founded_outputPath
      (founded_of_discover hl ((HookGenerator.discover_eq_ok hg).1 hfound) hne hrelative) hup hpath
  · exact hfounded directory hpath hrelative

/-- Output directories in order can be made anew. -/
theorem cleanable_of_inOrder (hroot : o.root.Plain) (hg : g.Follows o) (htree : IsFileTree d)
    (hclosed : Closed d.tree) (hplain : ∀ p ∈ files, p.Plain)
    (hfounded : ∀ directory ∈ g.outputDirectories files, Founded d directory)
    (horder : InOrder d (g.outputDirectories files)) : Cleanable d (g.outputDirectories files) := by
  have hdots := HookGenerator.dotless_of_plain hroot hg hplain
  exact ⟨htree.linkFree,hdots,HookGenerator.pairwise_upright hg files,horder,fun directory hd =>
    reached_of_closed hclosed (hfounded directory hd) (hdots directory hd)⟩

end Directories

end OperationHooks.Run
