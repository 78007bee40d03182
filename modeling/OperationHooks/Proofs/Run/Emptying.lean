import OperationHooks.Proofs.Run.Remaking
/-!
What is left in and of the output directories once they have been made anew, whatever their order.
Files stay below a directory that a missing name hides, and a directory is gone again if one above
it comes later.
-/
set_option autoImplicit false

namespace OperationHooks.Run
open Effect Disk

def EmptiedOut (d : Disk) (directories : List Path) : Prop :=
  ∀ directory ∈ directories, ∀ q e, Tree.isBelow (placeOf d directory) q = true →
    d.tree.get? q = some e → e = .directory ∧ ∃ other ∈ directories, q ∈ wayOf d other

def Lasting (d : Disk) (directories : List Path) : Prop :=
  ∀ directory ∈ directories, ∀ q ∈ wayOf d directory, ∀ before other after,
    directories = before ++ other :: after → Tree.isBelow (placeOf d other) q = true →
    ∃ again ∈ other :: after, q ∈ wayOf d again

def Unhidden (d : Disk) (directory : Path) : Prop :=
  HasDirectory d directory ∨ ∀ q e, Tree.isBelow (placeOf d directory) q = true →
    d.tree.get? q = some e → e = .directory ∧ q ∈ wayOf d directory

section Step

variable {files directories done : List Path} {directory : Path} {w w' : World} {q : Place}

theorem cleaned_cases (hl : LinkFree w.disk.tree) (hdot : directory.Dotless)
    (h : run (cleanDirectory files directory) w = (.ok (),w')) :
    HasDirectory w.disk directory ∧ Changed (Cleared (placeOf w.disk directory)) w.disk w'.disk ∨
      ¬ HasDirectory w.disk directory ∧ Changed Tree.Grown w.disk w'.disk ∧
        ∀ q ∉ wayOf w.disk directory, w'.disk.tree.get? q = w.disk.tree.get? q := by
  rcases cleanDirectory_effect hdot h with ⟨habsent,hgrown⟩ | ⟨c,hw,-,hcleared,-⟩
  · have hnot : ¬ HasDirectory w.disk directory := fun hd => by
      cases habsent.symm.trans (isPresent_of_walk hd)
    refine .inr ⟨hnot,hgrown,fun q hq => ?_⟩
    obtain ⟨_,-,-,⟨-,hm⟩ | ⟨hpresent,-⟩⟩ := cleanDirectory_ok h
    · have hsame := get?_of_makeDirectories hl directory hq
      rwa [hm] at hsame
    · cases habsent.symm.trans hpresent
  · obtain rfl : c = placeOf w.disk directory := place_of_walk hl hw
    exact .inl ⟨walk_true_of_directory hw,hcleared⟩

theorem get?_of_off_way (hl : LinkFree w.disk.tree) (hdot : directory.Dotless)
    (h : run (cleanDirectory files directory) w = (.ok (),w')) (hq : q ∉ wayOf w.disk directory)
    {e : Disk.Entry} (he : w'.disk.tree.get? q = some e) : w.disk.tree.get? q = some e := by
  rcases cleaned_cases hl hdot h with ⟨-,hcleared⟩ | ⟨-,-,hsame⟩
  · rw [hcleared.2 q] at he
    split at he
    · cases he
    · exact he
  · exact (hsame q hq).symm.trans he

theorem get?_of_not_below (hl : LinkFree w.disk.tree) (hdot : directory.Dotless)
    (h : run (cleanDirectory files directory) w = (.ok (),w'))
    (hb : Tree.isBelow (placeOf w.disk directory) q = false) {e : Disk.Entry}
    (he : w.disk.tree.get? q = some e) : w'.disk.tree.get? q = some e := by
  rcases cleaned_cases hl hdot h with ⟨-,hcleared⟩ | ⟨-,hgrown,-⟩
  · rw [hcleared.2 q,hb]; exact he
  · rcases hgrown.2 q with hsame | ⟨hn,-⟩
    · exact hsame.trans he
    · rw [hn] at he; cases he

theorem get?_of_way (hl : LinkFree w.disk.tree) (hdot : directory.Dotless)
    (h : run (cleanDirectory files directory) w = (.ok (),w')) (hq : q ∈ wayOf w.disk directory) :
    w'.disk.tree.get? q = some .directory := by
  have hr := remade_of_cleanDirectory hl hdot h
  exact ((hasDirectory_iff_way (hr.swept.linkFree hl)).1 hr.there).2 q (wayOf_eq hr.here _ ▸ hq)

theorem hasDirectory_of_above (hl : LinkFree w.disk.tree) (hdot : directory.Dotless)
    (hup : directory.Upright)
    (ha : Admitted directory) (hb : Tree.isBelow (placeOf w.disk directory) q = true)
    (habove : ∀ r, Tree.isBelow r q = true → w.disk.tree.get? r = some .directory) :
    HasDirectory w.disk directory :=
  (hasDirectory_iff_way hl).2 ⟨ha,fun _ hr =>
    habove _ (Tree.isBelow_of_prefix_of_isBelow (above_of_upright hup hdot hr) hb)⟩

theorem admitted_of_cleanDirectory (hl : LinkFree w.disk.tree) (hdot : directory.Dotless)
    (h : run (cleanDirectory files directory) w = (.ok (),w')) : Admitted directory := by
  have hr := remade_of_cleanDirectory hl hdot h
  exact ((hasDirectory_iff_way (hr.swept.linkFree hl)).1 hr.there).1

/-- Whatever stands there is a directory that leads to one of those made anew, or it is outside of
them all and in directories. -/
def Accounted (d : Disk) (done : List Path) : Prop := ∀ q e, d.tree.get? q = some e →
  (e = .directory ∧ ∃ directory ∈ done, q ∈ wayOf d directory) ∨
    (∀ r, Tree.isBelow r q = true → d.tree.get? r = some .directory) ∧
      ∀ directory ∈ done, Tree.isBelow (placeOf d directory) q = false

theorem Accounted.step (h : Accounted w.disk done) (hl : LinkFree w.disk.tree)
    (hdot : directory.Dotless)
    (hseen : directory.Upright ∨ Unhidden w.disk directory)
    (hr : run (cleanDirectory files directory) w = (.ok (),w')) :
    Accounted w'.disk (done ++ [directory]) := by
  have hhere := (remade_of_cleanDirectory hl hdot hr).here
  intro q e he
  simp only [wayOf_eq hhere,placeOf_eq hhere]
  by_cases hq : q ∈ wayOf w.disk directory
  · rw [get?_of_way hl hdot hr hq] at he
    exact .inl ⟨(Option.some.inj he).symm,directory,by simp,hq⟩
  have hold := get?_of_off_way hl hdot hr hq he
  rcases h q e hold with ⟨hdir,other,ho,hway⟩ | ⟨habove,hout⟩
  · exact .inl ⟨hdir,other,List.mem_append_left _ ho,hway⟩
  have hnot : Tree.isBelow (placeOf w.disk directory) q = false := Bool.eq_false_iff.2 fun hb => by
    have hthere : HasDirectory w.disk directory := by
      rcases hseen with hup | hthere | hnone
      · exact hasDirectory_of_above hl hdot hup (admitted_of_cleanDirectory hl hdot hr) hb habove
      · exact hthere
      · exact absurd (hnone q e hb hold).2 hq
    rcases cleaned_cases hl hdot hr with ⟨-,hcleared⟩ | ⟨habsent,-⟩
    · rw [hcleared.2 q,if_pos hb] at he; cases he
    · exact habsent hthere
  refine .inr ⟨fun r hrq => get?_of_not_below hl hdot hr (Bool.eq_false_iff.2 fun hb => ?_)
    (habove r hrq),?_⟩
  · rw [Tree.isBelow_of_isBelow_of_prefix hb (Tree.isBelow_iff.1 hrq).1] at hnot
    cases hnot
  · simp only [List.forall_mem_append,List.forall_mem_singleton]
    exact ⟨hout,hnot⟩

theorem accounted_of_clean (h : Accounted w.disk done) (hl : LinkFree w.disk.tree)
    (hdots : ∀ q ∈ directories, q.Dotless) (hups : ∀ q ∈ directories, q.Upright)
    (hr : run (clean files directories) w = (.ok (),w')) :
      Accounted w'.disk (done ++ directories) := by
  induction directories generalizing w done with
  | nil =>
    rw [clean_nil] at hr
    obtain ⟨-,rfl⟩ := Prod.mk.inj hr
    rwa [List.append_nil]
  | cons first rest ih =>
    obtain ⟨w₁,hfirst,hrest⟩ := clean_cons_ok.1 hr
    obtain ⟨hdot,hdots⟩ := List.forall_mem_cons.1 hdots
    obtain ⟨hup,hups⟩ := List.forall_mem_cons.1 hups
    have hl₁ := (remade_of_cleanDirectory hl hdot hfirst).swept.linkFree hl
    rw [List.append_cons]
    exact ih (h.step hl hdot (.inl hup) hfirst) hl₁ hdots hups hrest

theorem Accounted.emptied (h : Accounted w.disk done) : EmptiedOut w.disk done :=
  fun directory hd q e hb he => by
  refine (h q e he).resolve_right fun hout => ?_
  rw [hout.2 directory hd] at hb
  cases hb

/-- What leads to a directory still to be made, or stands already, stands in the end, if it is made
again whenever it may have been removed. -/
theorem stays_of_clean (hl : LinkFree w.disk.tree) (hdots : ∀ q ∈ directories, q.Dotless)
    (hr : run (clean files directories) w = (.ok (),w'))
    (hq : w.disk.tree.get? q = some .directory ∨ ∃ again ∈ directories, q ∈ wayOf w.disk again)
    (hlasting : ∀ before other after, directories = before ++ other :: after →
      Tree.isBelow (placeOf w.disk other) q = true → ∃ again ∈ other :: after,
        q ∈ wayOf w.disk again) :
    w'.disk.tree.get? q = some .directory := by
  induction directories generalizing w with
  | nil =>
    rw [clean_nil] at hr
    obtain ⟨-,rfl⟩ := Prod.mk.inj hr
    exact hq.resolve_right (by simp)
  | cons first rest ih =>
    obtain ⟨w₁,hfirst,hrest⟩ := clean_cons_ok.1 hr
    obtain ⟨hdot,hdots⟩ := List.forall_mem_cons.1 hdots
    have hremade := remade_of_cleanDirectory hl hdot hfirst
    have hplace := placeOf_eq hremade.here
    have hway := wayOf_eq hremade.here
    refine ih (hremade.swept.linkFree hl) hdots hrest ?_ fun before other after hsplit hb => ?_
    · simp only [hway]
      by_cases hagain : ∃ again ∈ first :: rest, q ∈ wayOf w.disk again
      · obtain ⟨again,ha,hon⟩ := hagain
        rcases List.mem_cons.1 ha with rfl | ha
        · exact .inl (get?_of_way hl hdot hfirst hon)
        · exact .inr ⟨again,ha,hon⟩
      · refine .inl (get?_of_not_below hl hdot hfirst (Bool.eq_false_iff.2 fun hb => ?_)
          (hq.resolve_right hagain))
        exact hagain (hlasting [] first rest rfl hb)
    · rw [hplace] at hb
      simp only [hway]
      exact hlasting (first :: before) other after (by rw [hsplit]; rfl) hb

theorem admitted_of_clean (hl : LinkFree w.disk.tree) (hdots : ∀ q ∈ directories, q.Dotless)
    (hr : run (clean files directories) w = (.ok (),w')) :
      ∀ directory ∈ directories, Admitted directory := by
  induction directories generalizing w with
  | nil => simp
  | cons first rest ih =>
    obtain ⟨w₁,hfirst,hrest⟩ := clean_cons_ok.1 hr
    obtain ⟨hdot,hdots⟩ := List.forall_mem_cons.1 hdots
    have hl₁ := (remade_of_cleanDirectory hl hdot hfirst).swept.linkFree hl
    exact List.forall_mem_cons.2 ⟨admitted_of_cleanDirectory hl hdot hfirst,ih hl₁ hdots hrest⟩

theorem none_of_clean (hl : LinkFree w.disk.tree) (hdots : ∀ q ∈ directories, q.Dotless)
    (hr : run (clean files directories) w = (.ok (),w')) (hnone : w.disk.tree.get? q = none)
    (hq : ∀ directory ∈ directories, q ∉ wayOf w.disk directory) : w'.disk.tree.get? q = none := by
  induction directories generalizing w with
  | nil =>
    rw [clean_nil] at hr
    obtain ⟨-,rfl⟩ := Prod.mk.inj hr
    exact hnone
  | cons first rest ih =>
    obtain ⟨w₁,hfirst,hrest⟩ := clean_cons_ok.1 hr
    obtain ⟨hdot,hdots⟩ := List.forall_mem_cons.1 hdots
    obtain ⟨hq₁,hq⟩ := List.forall_mem_cons.1 hq
    have hremade := remade_of_cleanDirectory hl hdot hfirst
    refine ih (hremade.swept.linkFree hl) hdots hrest ?_ fun other ho => by
      rw [wayOf_eq hremade.here]; exact hq other ho
    cases he : w₁.disk.tree.get? q with
    | none => rfl
    | some e => rw [get?_of_off_way hl hdot hfirst hq₁ he] at hnone; cases hnone

theorem above_placesOf {here r : Place} {names : List String} (hdot : "." ∉ names)
    (hup : ".." ∉ names)
    (hq : q ∈ placesOf here names) (hr : Tree.isBelow r q = true) :
      r ∈ placesOf here names ∨ r <+: here := by
  induction names generalizing here with
  | nil => cases hq
  | cons name rest ih =>
    obtain ⟨hd,hdots⟩ := not_or.1 (mt List.mem_cons.2 hdot)
    obtain ⟨hu,hups⟩ := not_or.1 (mt List.mem_cons.2 hup)
    rw [placesOf_step _ _ (Ne.symm hd) (Ne.symm hu)] at hq ⊢
    rcases List.mem_cons.1 hq with rfl | hq
    · obtain ⟨hpre,hne⟩ := Tree.isBelow_iff.1 hr
      exact .inr ((List.prefix_concat_iff.1 hpre).resolve_left hne)
    · rcases ih hdots hups hq with hm | hpre
      · exact .inl (List.mem_cons_of_mem _ hm)
      · rcases List.prefix_concat_iff.1 hpre with rfl | hpre
        · exact .inl List.mem_cons_self
        · exact .inr hpre

theorem above_lexical_ups (here : Place) (ups : Nat) :
    lexical here (List.replicate ups "..") <+: here := by
  induction ups generalizing here with
  | zero => exact List.prefix_refl here
  | succ ups ih =>
    rw [List.replicate_succ,lexical_up]
    exact (ih here.dropLast).trans (List.dropLast_prefix here)

theorem above_way {d : Disk} (hup : directory.Upright) (hdot : directory.Dotless)
    (hq : q ∈ wayOf d directory) {r : Place} (hr : Tree.isBelow r q = true) :
    r ∈ wayOf d directory ∨ r <+: d.startOf directory := by
  obtain ⟨ups,names,hparts,hnames⟩ := hup
  have hdots : "." ∉ names := fun hm => hdot (by rw [hparts]; exact List.mem_append_right _ hm)
  rw [wayOf,hparts,placesOf_append,placesOf_ups,List.nil_append] at hq ⊢
  exact (above_placesOf hdots hnames hq hr).imp_right fun hpre =>
    hpre.trans (above_lexical_ups _ ups)

structure Housed (d : Disk) : Prop where
  closed : Closed d.tree
  here : d.tree.get? d.here = some .directory

theorem Housed.above_start {d : Disk} (h : Housed d) {r : Place} (hr : r <+: d.startOf directory) :
    d.tree.get? r = some .directory := by
  unfold startOf at hr
  split at hr
  · rw [List.prefix_nil.1 hr]; rfl
  · by_cases he : r = d.here
    · rw [he]; exact h.here
    · exact h.closed _ _ h.here r (Tree.isBelow_iff.2 ⟨hr,he⟩)

/-- Making an upright directory anew leaves everything in directories, as long as the start is not
removed. -/
theorem Housed.step (h : Housed w.disk) (hl : LinkFree w.disk.tree) (hdot : directory.Dotless)
    (hup : directory.Upright) (hsafe : Tree.isBelow (placeOf w.disk directory) w.disk.here = false)
    (hr : run (cleanDirectory files directory) w = (.ok (),w')) : Housed w'.disk := by
  have hhere := (remade_of_cleanDirectory hl hdot hr).here
  -- Above something that stands nothing has been removed.
  have hkept : ∀ {r : Place}, w.disk.tree.get? r = some .directory →
      Tree.isBelow (placeOf w.disk directory) r = false → w'.disk.tree.get? r = some .directory :=
    fun hd hb => get?_of_not_below hl hdot hr hb hd
  have hstart : ∀ {r : Place}, r <+: w.disk.startOf directory →
      w'.disk.tree.get? r = some .directory := by
    intro r hpre
    refine hkept (h.above_start hpre) (Bool.eq_false_iff.2 fun hb => ?_)
    unfold startOf at hpre
    split at hpre
    · rw [List.prefix_nil.1 hpre] at hb
      exact (Tree.isBelow_iff.1 hb).2 (List.prefix_nil.1 (Tree.isBelow_iff.1 hb).1)
    · rw [Tree.isBelow_of_isBelow_of_prefix hb hpre] at hsafe
      cases hsafe
  refine ⟨fun q e he r hrq => ?_,hhere ▸ hkept h.here hsafe⟩
  by_cases hq : q ∈ wayOf w.disk directory
  · rcases above_way hup hdot hq hrq with hway | hpre
    · exact get?_of_way hl hdot hr hway
    · exact hstart hpre
  · refine hkept (h.closed q e (get?_of_off_way hl hdot hr hq he) r hrq)
      (Bool.eq_false_iff.2 fun hb => ?_)
    have hbq := Tree.isBelow_of_isBelow_of_prefix hb (Tree.isBelow_iff.1 hrq).1
    rcases cleaned_cases hl hdot hr with ⟨-,hcleared⟩ | ⟨habsent,-⟩
    · rw [hcleared.2 q,if_pos hbq] at he; cases he
    · exact habsent (hasDirectory_of_above hl hdot hup (admitted_of_cleanDirectory hl hdot hr) hbq
        (h.closed q e (get?_of_off_way hl hdot hr hq he)))

theorem gone_of_clean {before after : List Path} {other : Path} (h : Housed w.disk)
    (hl : LinkFree w.disk.tree) (hdots : ∀ q ∈ before ++ other :: after, q.Dotless)
    (hups : ∀ q ∈ before ++ other :: after, q.Upright)
    (hsafe : ∀ q ∈ before ++ other :: after, Tree.isBelow (placeOf w.disk q) w.disk.here = false)
    (hr : run (clean files (before ++ other :: after)) w = (.ok (),w'))
    (hb : Tree.isBelow (placeOf w.disk other) q = true)
    (hq : ∀ again ∈ other :: after, q ∉ wayOf w.disk again) : w'.disk.tree.get? q = none := by
  induction before generalizing w with
  | nil =>
    obtain ⟨w₁,hother,hafter⟩ := clean_cons_ok.1 hr
    obtain ⟨hdot,hdots⟩ := List.forall_mem_cons.1 hdots
    obtain ⟨hq₁,hq⟩ := List.forall_mem_cons.1 hq
    have hremade := remade_of_cleanDirectory hl hdot hother
    refine none_of_clean (hremade.swept.linkFree hl) hdots hafter ?_ fun again ha => by
      rw [wayOf_eq hremade.here]; exact hq again ha
    cases he : w₁.disk.tree.get? q with
    | none => rfl
    | some e =>
      have hold := get?_of_off_way hl hdot hother hq₁ he
      rcases cleaned_cases hl hdot hother with ⟨-,hcleared⟩ | ⟨habsent,-⟩
      · rw [hcleared.2 q,if_pos hb] at he; cases he
      · exact absurd (hasDirectory_of_above hl hdot (hups other (by simp))
          (admitted_of_cleanDirectory hl hdot hother) hb (h.closed q e hold)) habsent
  | cons first before ih =>
    obtain ⟨w₁,hfirst,hrest⟩ := clean_cons_ok.1 hr
    obtain ⟨hdot,hdots⟩ := List.forall_mem_cons.1 hdots
    obtain ⟨hup,hups⟩ := List.forall_mem_cons.1 hups
    obtain ⟨hsafe₁,hsafe⟩ := List.forall_mem_cons.1 hsafe
    have hremade := remade_of_cleanDirectory hl hdot hfirst
    have hplace := placeOf_eq hremade.here
    have hway := wayOf_eq hremade.here
    refine ih (h.step hl hdot hup hsafe₁ hfirst) (hremade.swept.linkFree hl) hdots hups
      (fun later hm => ?_)
      hrest (hplace other ▸ hb) fun again ha => hway again ▸ hq again ha
    rw [hplace,hremade.here]
    exact hsafe later hm

end Step

section Directories

variable {o : HookOptions} {g : HookGenerator} {files directories : List Path}
  {directory : Path} {w w' : World}

theorem unhidden_of_upright (hl : LinkFree w.disk.tree) (hc : Closed w.disk.tree)
    (hdot : directory.Dotless)
    (hup : directory.Upright) (ha : Admitted directory) : Unhidden w.disk directory := by
  by_cases hthere : HasDirectory w.disk directory
  · exact .inl hthere
  · exact .inr fun q e hb he => absurd (hasDirectory_of_above hl hdot hup ha hb (hc q e he)) hthere

theorem unhidden_of_emptied (hl : LinkFree w.disk.tree) (hdot : directory.Dotless)
    (h : run (cleanDirectory files directory) w = (.ok (),w'))
    (he : EmptiedOut w'.disk [directory]) :
    Unhidden w.disk directory := by
  have hhere := (remade_of_cleanDirectory hl hdot h).here
  rcases cleaned_cases hl hdot h with ⟨hthere,-⟩ | ⟨-,hgrown,-⟩
  · exact .inl hthere
  · refine .inr fun q e hb hq => ?_
    have hkept : w'.disk.tree.get? q = some e :=
      ((hgrown.2 q).resolve_right fun hnew => by rw [hnew.1] at hq; cases hq).trans hq
    obtain ⟨hdir,other,ho,hway⟩ :=
      he directory List.mem_cons_self q e (placeOf_eq hhere _ ▸ hb) hkept
    rw [List.mem_singleton.1 ho,wayOf_eq hhere] at hway
    exact ⟨hdir,hway⟩

theorem emptied_of_clean (hl : LinkFree w.disk.tree) (hc : Closed w.disk.tree)
    (hdots : ∀ q ∈ directories, q.Dotless) (hups : ∀ q ∈ directories, q.Upright)
    (h : run (clean files directories) w = (.ok (),w')) : EmptiedOut w'.disk directories := by
  have hstart : Accounted w.disk [] := fun q e he => .inr ⟨hc q e he,by simp⟩
  exact (accounted_of_clean hstart hl hdots hups h).emptied

theorem emptied_of_unhidden (hl : LinkFree w.disk.tree) (hc : Closed w.disk.tree)
    (hdot : directory.Dotless)
    (hseen : Unhidden w.disk directory) (h : run (cleanDirectory files directory) w = (.ok (),w')) :
    EmptiedOut w'.disk [directory] := by
  have hstart : Accounted w.disk [] := fun q e he => .inr ⟨hc q e he,by simp⟩
  exact (hstart.step hl hdot (.inr hseen) h).emptied

theorem lasting_of_inOrder {d : Disk} (hdots : ∀ q ∈ directories, q.Dotless)
    (hups : directories.Pairwise fun first second => first.Upright ∧ second.Upright)
    (h : InOrder d directories) : Lasting d directories := by
  rintro directory hd q hq before other after rfl hb
  obtain ⟨-,-,hbefore⟩ := List.pairwise_append.1 h
  obtain ⟨-,-,hbeforeUp⟩ := List.pairwise_append.1 hups
  rcases List.mem_append.1 hd with hd | hd
  · have hup := (hbeforeUp directory hd other List.mem_cons_self).1
    have hpre := above_of_upright hup (hdots directory (List.mem_append_left _ hd)) hq
    exact absurd ((Tree.isBelow_iff.1 hb).1.trans hpre)
      (hbefore directory hd other List.mem_cons_self)
  · exact ⟨directory,hd,hq⟩

theorem there_of_clean (hl : LinkFree w.disk.tree) (hdots : ∀ q ∈ directories, q.Dotless)
    (h : run (clean files directories) w = (.ok (),w')) (hlasting : Lasting w.disk directories) :
    ∀ directory ∈ directories, HasDirectory w'.disk directory := fun directory hd => by
  obtain ⟨hhere,hswept⟩ := swept_of_clean hl hdots h
  refine (hasDirectory_iff_way (hswept.linkFree hl)).2 ⟨admitted_of_clean hl hdots h directory hd,
    fun q hq => ?_⟩
  rw [wayOf_eq hhere] at hq
  exact stays_of_clean hl hdots h (.inr ⟨directory,hd,hq⟩) (hlasting directory hd q hq)

theorem lasting_of_there (hl : LinkFree w.disk.tree) (hhoused : Housed w.disk)
    (hdots : ∀ q ∈ directories, q.Dotless) (hups : ∀ q ∈ directories, q.Upright)
    (hsafe : ∀ q ∈ directories, Tree.isBelow (placeOf w.disk q) w.disk.here = false)
    (h : run (clean files directories) w = (.ok (),w'))
    (hthere : ∀ directory ∈ directories, HasDirectory w'.disk directory) :
      Lasting w.disk directories := by
  obtain ⟨hhere,hswept⟩ := swept_of_clean hl hdots h
  rintro directory hd q hq before other after rfl hb
  by_contra hnever
  have hgone := gone_of_clean hhoused hl hdots hups hsafe h hb fun again ha hway =>
    hnever ⟨again,ha,hway⟩
  have hstands := ((hasDirectory_iff_way (hswept.linkFree hl)).1 (hthere directory hd)).2 q
    (wayOf_eq hhere _ ▸ hq)
  rw [hgone] at hstands
  cases hstands

theorem lasting_singleton (d : Disk) (directory : Path) : Lasting d [directory] := by
  intro directory' hd q hq before other after hsplit _
  cases before with
  | nil =>
    obtain ⟨rfl,rfl⟩ := List.cons.inj hsplit
    exact ⟨directory',hd,hq⟩
  | cons first rest => simp at hsplit

theorem upright_or_singleton (hg : g.Follows o) (files : List Path) :
    (∀ q ∈ g.outputDirectories files, q.Upright) ∨ ∃ only, g.outputDirectories files = [only] := by
  have hups := HookGenerator.pairwise_upright hg files
  cases hdirs : g.outputDirectories files with
  | nil => exact .inl (by simp)
  | cons first rest =>
    rw [hdirs] at hups
    cases rest with
    | nil => exact .inr ⟨first,rfl⟩
    | cons second rest =>
      have hfirst := (List.pairwise_cons.1 hups).1
      exact .inl
        (List.forall_mem_cons.2 ⟨(hfirst second List.mem_cons_self).1,fun q hq => (hfirst q hq).2⟩)

/-- When the output directories have been made anew, only they and what leads to them is left in
them, exactly if none had anything below it while it was itself not there. They all are there if
what leads to one is made again whenever it goes with another; and only then, unless the run removes
the directory it runs in. -/
theorem stale_cleared (hg : g.Follows o) (hroot : o.root.Dotless) (hfiles : ∀ p ∈ files, p.Dotless)
    (hl : LinkFree w.disk.tree) (hc : Closed w.disk.tree)
    (h : run (clean files (g.outputDirectories files)) w = (.ok (),w')) :
    (EmptiedOut w'.disk (g.outputDirectories files) ↔
      ∀ directory ∈ g.outputDirectories files, Unhidden w.disk directory) ∧
    (∀ directory ∈ g.outputDirectories files, directory.Upright → Unhidden w.disk directory) ∧
    (Lasting w.disk (g.outputDirectories files) →
      ∀ directory ∈ g.outputDirectories files, HasDirectory w'.disk directory) ∧
    (w.disk.tree.get? w.disk.here = some .directory →
      (∀ directory ∈ g.outputDirectories files,
        Tree.isBelow (placeOf w.disk directory) w.disk.here = false) →
      (∀ directory ∈ g.outputDirectories files, HasDirectory w'.disk directory) →
      Lasting w.disk (g.outputDirectories files)) ∧
    (InOrder w.disk (g.outputDirectories files) → Lasting w.disk (g.outputDirectories files)) := by
  have hdots : ∀ directory ∈ g.outputDirectories files, directory.Dotless := by
    intro directory hd
    obtain ⟨p,hp,rfl⟩ := HookGenerator.mem_outputDirectories.1 hd
    exact HookGenerator.dotless_outputDirectory hroot hg (hfiles p hp)
  have hseen : ∀ directory ∈ g.outputDirectories files, directory.Upright →
      Unhidden w.disk directory :=
    fun directory hd hup => unhidden_of_upright hl hc (hdots directory hd) hup
      (admitted_of_clean hl hdots h directory hd)
  refine ⟨?_,hseen,there_of_clean hl hdots h,fun hhere hsafe hthere => ?_,
    lasting_of_inOrder hdots (HookGenerator.pairwise_upright hg files)⟩
  · rcases upright_or_singleton hg files with hups | ⟨only,honly⟩
    · exact iff_of_true (emptied_of_clean hl hc hdots hups h) fun directory hd =>
        hseen directory hd (hups directory hd)
    · rw [honly] at h hdots ⊢
      obtain ⟨w₁,hfirst,hrest⟩ := clean_cons_ok.1 h
      rw [clean_nil] at hrest
      obtain ⟨-,rfl⟩ := Prod.mk.inj hrest
      have hdot := hdots only List.mem_cons_self
      rw [List.forall_mem_singleton]
      exact ⟨unhidden_of_emptied hl hdot hfirst,fun hb => emptied_of_unhidden hl hc hdot hb hfirst⟩
  · rcases upright_or_singleton hg files with hups | ⟨only,honly⟩
    · exact lasting_of_there hl ⟨hc,hhere⟩ hdots hups hsafe h hthere
    · rw [honly]; exact lasting_singleton _ only

def leftHook : Disk where
  here := []
  tree := ⟨[(["src"],.directory),(["src","a"],.directory),
    (["src","a","A.graphql"],.file (Text.encode "query A { a }") false),(["hooks"],.directory),
    (["hooks","old.ts"],.file (Text.encode "// stale") false)]⟩

theorem leftHook_cleaned (root : String) (check : World → Bool)
    (hd : { HookOptions.standard with outputRoot := some root }.outputPath = some directory)
    (hok : (HookGenerator.ofOptions [] leftHook
      { HookOptions.standard with outputRoot := some root }).isOk)
    (hclean : (run (clean [.ofString "src/a/A.graphql"] [directory]) (.ofDisk leftHook)).1.isOk)
    (hcheck : check (run (clean [.ofString "src/a/A.graphql"] [directory]) (.ofDisk leftHook)).2 =
      true) :
    ∃ (g : HookGenerator) (w' : World),
      HookGenerator.ofOptions [] leftHook { HookOptions.standard with outputRoot := some root } =
        .ok g ∧
      g.discover leftHook = .ok [.ofString "src/a/A.graphql"] ∧
      g.outputDirectories [.ofString "src/a/A.graphql"] = [directory] ∧
      run (clean [.ofString "src/a/A.graphql"] [directory]) (.ofDisk leftHook) = (.ok (),w') ∧
      check w' = true := by
  have hfind : Glob.find leftHook (.ofString ".") "src/**/*.graphql" =
      .ok [.ofString "src/a/A.graphql"] := rfl
  have hfound : discover leftHook (.ofString ".") "src/**/*.graphql" ["index.ts"] =
      .ok [.ofString "src/a/A.graphql"] :=
    discover_of_find hfind rfl (by decide) (by simp) (by simp)
  cases hg :
    HookGenerator.ofOptions [] leftHook { HookOptions.standard with outputRoot := some root } with
  | error e => rw [hg] at hok; cases hok
  | ok g =>
    have hfollows := HookGenerator.follows_of_ofOptions hg
    have hdirs : g.outputDirectories [.ofString "src/a/A.graphql"] = [directory] := by
      rw [HookGenerator.outputDirectories_eq hfollows,hd]
      exact Path.sorted_of_pairwise (by simp) (by simp)
    cases hr : run (clean [.ofString "src/a/A.graphql"] [directory]) (.ofDisk leftHook) with
    | mk r w' =>
      rw [hr] at hclean hcheck
      cases r with
      | error e => cases hclean
      | ok _ => exact ⟨g,w',rfl,(HookGenerator.discover_eq_ok hfollows).2 hfound,hdirs,rfl,hcheck⟩

theorem stale_cleared_directly :
    ∃ (o : HookOptions) (g : HookGenerator) (files : List Path) (w' : World),
    HookGenerator.ofOptions [] leftHook o = .ok g ∧ g.discover leftHook = .ok files ∧
      run (clean files (g.outputDirectories files)) (.ofDisk leftHook) = (.ok (),w') ∧
      EmptiedOut w'.disk (g.outputDirectories files) ∧
      (∀ directory ∈ g.outputDirectories files, HasDirectory w'.disk directory) ∧
      w'.disk.tree.get? ["hooks","old.ts"] = none := by
  obtain ⟨g,w',hg,hf,hd,hr,hhere⟩ := leftHook_cleaned "hooks" (fun w => decide (w.disk.here = []))
    rfl rfl rfl rfl
  have htree : IsFileTree leftHook := isFileTree_of_formsTree rfl
  rw [← hd] at hr
  obtain ⟨hempty,hseen,hthere,-,horder⟩ := stale_cleared (w := .ofDisk leftHook)
    (HookGenerator.follows_of_ofOptions hg) (Path.dotless_ofString ".")
    (List.forall_mem_singleton.2 (Path.dotless_ofString _)) htree.linkFree
    (closed_of_entries rfl) hr
  have hup :
      ∀ directory ∈ g.outputDirectories [.ofString "src/a/A.graphql"], directory.Upright := by
    rw [hd]
    exact List.forall_mem_singleton.2 ⟨0,["hooks"],rfl,by simp⟩
  have hemptied := hempty.2 fun directory hdir => hseen directory hdir (hup directory hdir)
  refine ⟨_,g,_,w',hg,hf,hr,hemptied,
    hthere (horder (by rw [hd]; exact List.pairwise_singleton _ _)),?_⟩
  cases he : w'.disk.tree.get? ["hooks","old.ts"] with
  | none => rfl
  | some e =>
    rw [hd] at hemptied
    have hhere := of_decide_eq_true hhere
    have hbelow : Tree.isBelow (placeOf w'.disk (.ofString "hooks")) ["hooks","old.ts"] = true := by
      rw [placeOf_eq (d := leftHook) hhere]; rfl
    obtain ⟨-,other,ho,hway⟩ := hemptied _ List.mem_cons_self _ e hbelow he
    rw [List.mem_singleton.1 ho,wayOf_eq (d := leftHook) hhere] at hway
    exact absurd hway (by decide)

/-- Hooks sent to the same directory by way of one that is not there yet leave the earlier ones in
it. -/
theorem stale_hook_hidden : ¬ ∀ (o : HookOptions) (d : Disk) (g : HookGenerator) (files : List Path)
    (w' : World), HookGenerator.ofOptions [] d o = .ok g → o.root.Plain → IsFileTree d →
    Closed d.tree → g.discover d = .ok files →
    run (clean files (g.outputDirectories files)) (.ofDisk d) = (.ok (),w') →
    (∀ directory ∈ g.outputDirectories files, HasDirectory w'.disk directory) ∧
      EmptiedOut w'.disk (g.outputDirectories files) := by
  intro h
  obtain ⟨g,w',hg,hf,hd,hr,hcheck⟩ := leftHook_cleaned "new/../hooks"
    (fun w => decide (w.disk.here = []) && decide (w.disk.tree.get? ["hooks","old.ts"] =
      some (.file (Text.encode "// stale") false))) rfl rfl rfl rfl
  rw [← hd] at hr
  simp only [Bool.and_eq_true,decide_eq_true_eq] at hcheck
  obtain ⟨hhere,hstale⟩ := hcheck
  obtain ⟨-,hempty⟩ := h _ leftHook g _ w' hg (Path.plain_ofString ".")
    (isFileTree_of_formsTree rfl) (closed_of_entries rfl) hf hr
  rw [hd] at hempty
  have hbelow :
      Tree.isBelow (placeOf w'.disk (.ofString "new/../hooks")) ["hooks","old.ts"] = true := by
    rw [placeOf_eq (d := leftHook) hhere]; decide +kernel
  cases (hempty _ List.mem_cons_self _ _ hbelow hstale).1

end Directories

end OperationHooks.Run
