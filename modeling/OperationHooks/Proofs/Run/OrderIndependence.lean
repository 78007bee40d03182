import OperationHooks.Proofs.Index.Text
import OperationHooks.Proofs.Run.Trial
import OperationHooks.Proofs.Run.Whole
/-!
Runs by different schedules. Where no template is generated by the run itself, and no two output
directories are in each other's way, the order of the files and of the steps of their tasks decides
only which of several definitions has the last word on a module they share, and whether an index
mentions the index of nested hooks.
-/
set_option autoImplicit false

namespace OperationHooks.Run
open Effect Disk Index

def FormatsBy (s : Setup) (f : String → String) : Prop := ∀ d text,
  s.hook.formatting d text = .ok (f text) ∧ s.index.formatting d text = .ok (f text)

def TemplatesApart (s : Setup) (d : Disk) (files : List Path) : Prop :=
  ∀ directory, s.hook.templates = some directory → ∀ q, Generated s d files q →
    ¬ placeOf d directory <+: q

/-- Two disks that runs over the same definitions may leave. -/
structure Agree (s : Setup) (f : String → String) (files : List Path) (d a b : Disk) : Prop where
  directories : ∀ q, b.tree.get? q = some .directory ↔ a.tree.get? q = some .directory
  regular : ∀ q, (∃ bytes executable, b.tree.get? q = some (.file bytes executable)) ↔
    ∃ bytes executable, a.tree.get? q = some (.file bytes executable)
  modules : ∀ p ∈ files, ∀ m, plan s d p = .make m →
    (∀ p' ∈ files, ∀ m', plan s d p' = .make m' →
      s.hook.outputPath m' = s.hook.outputPath m → p' = p) →
    b.tree.get? (modulePlace s d m) = a.tree.get? (modulePlace s d m)
  indexes : ∀ directory, Uses s files directory →
    b.tree.get? (indexPlace s.index d directory) = a.tree.get? (indexPlace s.index d directory) ∨
    ∃ x y executable, SameAside x y ∧ (KeepsApart f → SameAside (f x) (f y)) ∧
      a.tree.get? (indexPlace s.index d directory) = some (.file (Text.encode (f x)) executable) ∧
      b.tree.get? (indexPlace s.index d directory) = some (.file (Text.encode (f y)) executable)
  elsewhere : ∀ q, (∀ p ∈ files, ∀ m, plan s d p = .make m → q ≠ modulePlace s d m) →
    (∀ directory, Uses s files directory → q ≠ indexPlace s.index d directory) →
    b.tree.get? q = a.tree.get? q

section Files

variable {s : Setup} {base d : Disk} {files files' : List Path} {w : Index.World}

theorem uses_congr (h : ∀ p, p ∈ files' ↔ p ∈ files) : Uses s files' = Uses s files := by
  funext directory; simp only [Uses,h]

theorem generated_congr (h : ∀ p, p ∈ files' ↔ p ∈ files) :
    Generated s base files' = Generated s base files := by
  funext q; simp only [Generated,uses_congr h]

theorem Outcome.congr (ho : Outcome s base files w) (h : ∀ p, p ∈ files' ↔ p ∈ files) :
    Outcome s base files' w := by
  obtain ⟨hplanned,hover,hentries,hnodup,hstands,hbare,hmade,helse⟩ := ho
  refine ⟨?_,?_,?_,hnodup,hstands,?_,?_,?_⟩
  · simpa only [h] using hplanned
  · simpa only [generated_congr h] using hover
  · simpa only [Receives,h] using hentries
  · simpa only [uses_congr h] using hbare
  · simpa only [generated_congr h,h] using hmade
  · simpa only [uses_congr h,h] using helse

theorem Prepared.congr (hp : Prepared s base files) (h : ∀ p, p ∈ files' ↔ p ∈ files) :
    Prepared s base files' := by
  obtain ⟨hground,hnames,hextension,hapart⟩ := hp
  refine ⟨?_,hnames,hextension,?_⟩
  · simpa only [uses_congr h] using hground
  · simpa only [uses_congr h,h] using hapart

theorem generated_of_here (h : d.here = base.here) (q : Place) :
    Generated s d files q ↔ Generated s base files q := by
  simp only [Generated,placeOf_eq h]

theorem TemplatesApart.of_here (ht : TemplatesApart s d files) (h : d.here = base.here) :
    TemplatesApart s base files := by
  intro directory hd q hq
  rw [← placeOf_eq h]
  exact ht directory hd q ((generated_of_here h q).2 hq)

end Files

section Outcomes

variable {s : Setup} {f : String → String} {base d : Disk} {files : List Path} {w w' : Index.World}

theorem rendering_overlaid (hl : LinkFree base.tree) (ht : TemplatesApart s base files)
    (hf : ∀ d d' text, s.hook.formatting d' text = s.hook.formatting d text)
    {disk : Disk} (ho : Overlaid (Generated s base files) base disk)
    {m : Descriptor} {text : String} :
    s.hook.Rendering disk m text ↔ s.hook.Rendering base m text := by
  unfold Hook.Settings.Rendering
  simp only [Hook.Settings.render_eq_ok,Hook.Settings.draft_overlaid hl ho ht,hf base disk]

theorem rendering_iff (hl : LinkFree base.tree) (ht : TemplatesApart s base files)
    (hf : FormatsBy s f)
    {disk : Disk} (ho : Overlaid (Generated s base files) base disk)
    {m : Descriptor} {text : String} :
    s.hook.Rendering disk m text ↔ s.hook.Rendering base m text :=
  rendering_overlaid hl ht (fun d d' text => (hf d' text).1.trans (hf d text).1.symm) ho

theorem rendering_unique {m : Descriptor} {x y : String}
    (hx : s.hook.Rendering base m x) (hy : s.hook.Rendering base m y) : x = y := by
  obtain ⟨content,hc,hx⟩ := hx
  obtain ⟨content',hc',hy⟩ := hy
  rw [hc] at hc'
  obtain ⟨-,rfl⟩ := Hook.Module.mk.inj (Except.ok.inj hc')
  rw [hx] at hy
  exact Except.ok.inj hy

theorem Outcome.feasible (h : Outcome s base files w) (hl : LinkFree base.tree)
    (ht : TemplatesApart s base files) (hf : FormatsBy s f) : Feasible s base files := by
  refine ⟨h.planned,fun p hp m hm => ?_,fun d text => ⟨f text,(hf d text).2⟩⟩
  obtain ⟨hcan,⟨disk,text,ho,hr⟩,-⟩ := h.made p hp m hm
  refine ⟨hcan,?_,fun disk' ho' => ⟨text,?_⟩⟩
  · have hmem := (h.entries (s.hook.outputDirectory p) (s.hook.nameOf m)).2 ⟨p,hp,m,hm,rfl,rfl⟩
    exact (h.stands _ (List.ne_nil_of_mem hmem)).1
  · rw [rendering_iff hl ht hf ho']
    rwa [rendering_iff hl ht hf ho] at hr

theorem Prepared.outputPath_of_place (h : Prepared s base files) {p p' : Path} (hp : p ∈ files)
    (hp' : p' ∈ files) {m m' : Descriptor} (hm : plan s base p = .make m)
    (hm' : plan s base p' = .make m')
    (he : modulePlace s base m' = modulePlace s base m) :
      s.hook.outputPath m' = s.hook.outputPath m := by
  rw [h.modulePlace_eq hm,h.modulePlace_eq hm'] at he
  obtain ⟨hdir,hname⟩ := List.append_singleton_inj.1 he
  rw [h.outputPath_eq hm,h.outputPath_eq hm',hname,
    h.ground.apart _ _ ⟨p',hp',rfl⟩ ⟨p,hp,rfl⟩ hdir]

/-- Two outcomes differ in modules that several definitions share, and in lines for nested hooks. -/
theorem Outcome.agree (h : Outcome s base files w) (h' : Outcome s base files w')
    (hp : Prepared s base files) (ht : TemplatesApart s base files) (hf : FormatsBy s f) :
    Agree s f files base w.disk w'.disk := by
  have hl := hp.ground.linkFree
  have hmodule : ∀ {w : Index.World}, Outcome s base files w → ∀ p ∈ files, ∀ m,
      plan s base p = .make m → ∃ bytes executable,
        w.disk.tree.get? (modulePlace s base m) = some (.file bytes executable) := by
    intro w h p hp m hm
    obtain ⟨-,-,_,_,_,_,_,_,_,_,_,hget⟩ := h.made p hp m hm
    exact ⟨_,_,hget⟩
  have hreceives : ∀ directory, (w.indexes.state directory).entries = [] ↔
      (w'.indexes.state directory).entries = [] := by
    intro directory
    simp only [List.eq_nil_iff_forall_not_mem,h.entries,h'.entries]
  have hindex : ∀ directory, Uses s files directory →
      w'.disk.tree.get? (indexPlace s.index base directory) =
        w.disk.tree.get? (indexPlace s.index base directory) ∨
      ∃ x y executable, SameAside x y ∧ (KeepsApart f → SameAside (f x) (f y)) ∧
        w.disk.tree.get? (indexPlace s.index base directory) =
          some (.file (Text.encode (f x)) executable) ∧
        w'.disk.tree.get? (indexPlace s.index base directory) =
          some (.file (Text.encode (f y)) executable) := by
    intro directory hu
    by_cases hn : (w.indexes.state directory).entries = []
    · exact .inl (by rw [h.bare directory hu hn,h'.bare directory hu ((hreceives directory).1 hn)])
    · obtain ⟨-,text,⟨nested,disk,htext⟩,hget⟩ := h.stands directory hn
      obtain ⟨-,text',⟨nested',disk',htext'⟩,hget'⟩ :=
        h'.stands directory fun he => hn ((hreceives directory).2 he)
      have hperm : (w'.indexes.state directory).entries.Perm (w.indexes.state directory).entries :=
        (List.perm_ext_iff_of_nodup (h'.nodup directory) (h.nodup directory)).2 fun x => by
          rw [h.entries,h'.entries]
      rw [(hf _ _).2] at htext htext'
      obtain rfl := Except.ok.inj htext
      obtain rfl := Except.ok.inj htext'
      rw [textOf_congr hperm] at hget'
      exact .inr ⟨_,_,_,sameAside_textOf hn nested nested',fun hk => hk.sameAside hn nested nested',
        hget,hget'⟩
  have helsewhere : ∀ q, (∀ p ∈ files, ∀ m, plan s base p = .make m → q ≠ modulePlace s base m) →
      (∀ directory, Uses s files directory → q ≠ indexPlace s.index base directory) →
      w'.disk.tree.get? q = w.disk.tree.get? q := fun q hq hq' => by
    rw [h.elsewhere q hq' hq,h'.elsewhere q hq' hq]
  -- A place is that of a module, or of an index, or neither.
  have hcases : ∀ q, w'.disk.tree.get? q = w.disk.tree.get? q ∨
      (∃ bytes executable, w.disk.tree.get? q = some (.file bytes executable)) ∧
        ∃ bytes executable, w'.disk.tree.get? q = some (.file bytes executable) := by
    intro q
    by_cases hq : ∃ p ∈ files, ∃ m, plan s base p = .make m ∧ q = modulePlace s base m
    · obtain ⟨p,hp,m,hm,rfl⟩ := hq
      exact .inr ⟨hmodule h p hp m hm,hmodule h' p hp m hm⟩
    · by_cases hq' : ∃ directory, Uses s files directory ∧ q = indexPlace s.index base directory
      · obtain ⟨directory,hu,rfl⟩ := hq'
        rcases hindex directory hu with he | ⟨x,y,executable,-,-,hx,hy⟩
        · exact .inl he
        · exact .inr ⟨⟨_,_,hx⟩,_,_,hy⟩
      · exact .inl (helsewhere q (fun p hp m hm he => hq ⟨p,hp,m,hm,he⟩)
          fun directory hu he => hq' ⟨directory,hu,he⟩)
  refine ⟨fun q => ?_,fun q => ?_,fun p hm m hmake hunique => ?_,hindex,helsewhere⟩
  · rcases hcases q with he | ⟨⟨_,_,hx⟩,_,_,hy⟩
    · rw [he]
    · rw [hx,hy]; simp
  · rcases hcases q with he | ⟨hx,hy⟩
    · rw [he]
    · exact iff_of_true hy hx
  · obtain ⟨-,-,p₁,hp₁,m₁,hm₁,hplace₁,disk₁,text₁,ho₁,hr₁,hget₁⟩ := h.made p hm m hmake
    obtain ⟨-,-,p₂,hp₂,m₂,hm₂,hplace₂,disk₂,text₂,ho₂,hr₂,hget₂⟩ := h'.made p hm m hmake
    obtain rfl := hunique p₁ hp₁ m₁ hm₁ (hp.outputPath_of_place hm hp₁ hmake hm₁ hplace₁)
    obtain rfl := hunique p₂ hp₂ m₂ hm₂ (hp.outputPath_of_place hm hp₂ hmake hm₂ hplace₂)
    obtain rfl := Plan.make.inj (hmake.symm.trans hm₁)
    obtain rfl := Plan.make.inj (hmake.symm.trans hm₂)
    rw [rendering_iff hl ht hf ho₁] at hr₁
    rw [rendering_iff hl ht hf ho₂] at hr₂
    rw [hget₁,hget₂,rendering_unique hr₁ hr₂]

theorem Agree.congr {a b : Disk} (h : Agree s f files base a b) (hh : d.here = base.here)
    (hplan : ∀ p ∈ files, plan s base p = plan s d p) : Agree s f files d a b := by
  have hmodule : ∀ m, modulePlace s d m = modulePlace s base m := fun m => placeOf_eq hh _
  have hindex : ∀ directory, indexPlace s.index d directory = indexPlace s.index base directory :=
    fun directory => by rw [indexPlace,indexPlace,placeOf_eq hh]
  refine ⟨h.directories,h.regular,fun p hp m hm hunique => ?_,?_,fun q hq hq' => ?_⟩
  · rw [hmodule]
    refine h.modules p hp m ((hplan p hp).trans hm) fun p' hp' m' hm' he => ?_
    exact hunique p' hp' m' ((hplan p' hp').symm.trans hm') he
  · simpa only [hindex] using h.indexes
  · refine h.elsewhere q (fun p hp m hm => ?_) fun directory hu => ?_
    · rw [← hmodule]; exact hq p hp m ((hplan p hp).symm.trans hm)
    · rw [← hindex]; exact hq' directory hu

theorem Agree.refl (s : Setup) (f : String → String) (files : List Path) (d a : Disk) :
    Agree s f files d a a :=
  ⟨fun _ => Iff.rfl,fun _ => Iff.rfl,fun _ _ _ _ _ => rfl,fun _ _ => .inl rfl,fun _ _ _ => rfl⟩

end Outcomes

section Runs

variable {env : Format.Environment} {d : Disk} {o : HookOptions} {g : HookGenerator}
variable {files : List Path} {schedule schedule' : Schedule} {w w' : World} {r : Report}

theorem reportOf_congr {s : Setup} {base : Disk} {entries entries' : List Entry} {a b : Index.World}
    (hplain : ∀ p ∈ files, p.Plain) (hdirs : ∀ directory, Uses s files directory → directory.Plain)
    (ha : Outcome s base files a) (hb : Outcome s base files b)
    (h : entries.Perm (entriesFor s base files)) (h' : entries'.Perm (entriesFor s base files))
    (hskipped : r.skipped = []) (herrors : r.errors = []) :
    reportOf s r entries a.indexes = reportOf s r entries' b.indexes := by
  unfold reportOf
  rw [written_congr ha hb hdirs,sorted_foldl_add hplain h h' hskipped herrors]

theorem formatsBy_basic (hg : HookGenerator.ofOptions env d o = .ok g)
    (ho : o.formatters.toList = ["basic"]) {style : Format.Options}
    (hstyle : Config.styleOptions d o.configPath o.extension.text = .ok style)
    (hw : style.tabWidth ≠ 0) :
    FormatsBy g.setup fun text => (Format.basic? style text).getD text := by
  obtain ⟨style',hstyle',hhook,hindex⟩ := HookGenerator.basic_of_ofOptions hg ho
  obtain rfl := Except.ok.inj (hstyle'.symm.trans hstyle)
  intro disk text
  obtain ⟨formatted,hb⟩ := Format.exists_basic (.inr hw) text
  simp only [hhook,hindex,Format.format_basic,hb,Option.getD_some,and_self]

theorem keepsApart_of_basic (hg : HookGenerator.ofOptions env d o = .ok g)
    (ho : o.formatters.toList = ["basic"]) {f : String → String} (hf : FormatsBy g.setup f) :
    KeepsApart f := by
  obtain ⟨style,-,hhook,-⟩ := HookGenerator.basic_of_ofOptions hg ho
  refine keepsApart_basic (o := style) fun text => ?_
  have htext := (hf d text).1
  rw [hhook,Format.format_basic] at htext
  cases hb : Format.basic? style text with
  | none => rw [hb] at htext; cases htext
  | some formatted =>
    rw [hb] at htext
    exact congrArg some (Except.ok.inj htext)

/-- Two schedules for one run on a disk without links. The second one goes on while it can. -/
structure Rivals (g : HookGenerator) (o : HookOptions) (f : String → String) (w : World)
    (files : List Path) (first second : Schedule) : Prop where
  follows : g.Follows o
  root : o.root.Plain
  slash : '/' ∉ o.namePrefix.toList
  formats : FormatsBy g.setup f
  tree : IsFileTree w.disk
  found : g.discover w.disk = .ok files
  perm₁ : first.files.Perm files
  perm₂ : second.files.Perm files
  complete : second.IsComplete g w

end Runs

section Standing

variable {o : HookOptions} {g : HookGenerator} {files directories : List Path} {steps : List Nat}
variable {w : World}

def DisagreeOnIndex (g : HookGenerator) (d : Disk) (files : List Path)
    (first second : Schedule) : Prop :=
  ∃ directory x y r r' w w', run (runBy g first) (.ofDisk d) = (.ok r,w) ∧
    run (runBy g second) (.ofDisk d) = (.ok r',w') ∧ Uses g.setup files directory ∧
    w.disk.tree.get? (indexPlace g.setup.index d directory) = some (.file (Text.encode x) false) ∧
    w'.disk.tree.get? (indexPlace g.setup.index d directory) = some (.file (Text.encode y) false) ∧
    ¬ SameAside x y

def Trial.indexAfter (t : Trial) (g : HookGenerator) (steps : List Nat) (directory : Path) :
    Option Disk.Entry :=
  (t.standing g steps).world.disk.tree.get? (indexPlace g.setup.index t.disk directory)

theorem disagreeOnIndex_of_standing {t : Trial} {first second : List Nat}
    {directory : Path} {x y : String}
    (hfound : g.discover t.disk = .ok t.files) (hne : t.files ≠ [])
    (hdirs : g.outputDirectories t.files = t.directories)
    (hfirst : t.comesThrough g first = true) (hsecond : t.comesThrough g second = true)
    (hd : directory ∈ t.directories)
    (hx : t.indexAfter g first directory = some (.file (Text.encode x) false))
    (hy : t.indexAfter g second directory = some (.file (Text.encode y) false))
    (hxy : ¬ SameAside x y) :
      DisagreeOnIndex g t.disk t.files (t.schedule first) (t.schedule second) := by
  obtain ⟨r,w,hrun,hdisk,-⟩ := run_of_comesThrough (w := .ofDisk t.disk) hfound hne hdirs hfirst
  obtain ⟨r',w',hrun',hdisk',-⟩ :=
    run_of_comesThrough (w := .ofDisk t.disk) hfound hne hdirs hsecond
  exact ⟨directory,x,y,r,r',w,w',hrun,hrun',uses_iff.2 (hdirs ▸ hd),by rw [hdisk]; exact hx,
    by rw [hdisk']; exact hy,hxy⟩

theorem exists_fault {t : Trial} {steps' : List Nat} (hfound : g.discover t.disk = .ok t.files)
    (hne : t.files ≠ []) (hdirs : g.outputDirectories t.files = t.directories)
    (h : t.comesThrough g steps = true) (h' : (t.standing g steps').fault.isSome = true) :
    ∃ fault w', run (runBy g (t.schedule steps')) (.ofDisk t.disk) = (.error fault,w') := by
  simp only [Trial.comesThrough,comesThrough,Bool.and_eq_true] at h
  obtain ⟨fault,hfault⟩ := Option.isSome_iff_exists.1 h'
  obtain ⟨w',hrun⟩ := run_of_failed (w := .ofDisk t.disk) hfound hne hdirs h.1.1.1 hfault
  exact ⟨_,w',hrun⟩

theorem templatesApart_of_outputDirectories {d : Disk} {templates : Path}
    (ht : g.setup.hook.templates = some templates)
    (h : ∀ directory ∈ g.outputDirectories files, ¬ placeOf d templates <+: placeOf d directory ∧
      ¬ placeOf d directory <+: placeOf d templates) : TemplatesApart g.setup d files := by
  rintro directory hdirectory q ⟨output,stem,hu,rfl⟩ hinside
  obtain rfl := Option.some.inj (ht.symm.trans hdirectory)
  obtain ⟨hbelow,habove⟩ := h output (uses_iff.1 hu)
  rcases List.prefix_concat_iff.1 hinside with he | hprefix
  · exact habove (he ▸ List.prefix_append _ _)
  · exact hbelow hprefix

structure Trial.Contest (t : Trial) (g : HookGenerator) (f : String → String)
    (first second : List Nat) :
    Prop where
  generator : HookGenerator.ofOptions [] t.disk t.options = .ok g
  rivals : Rivals g t.options f (.ofDisk t.disk) t.files (t.schedule first) (t.schedule second)

theorem Trial.IsSound.exists_contest {t : Trial} (h : t.IsSound) (first second : List Nat)
    (check : HookGenerator → Bool) (hroot : t.options.root.Plain)
    (hslash : '/' ∉ t.options.namePrefix.toList)
    (hbasic : t.options.formatters.toList = ["basic"])
    (hstyle : passes (Config.styleOptions t.disk t.options.configPath t.options.extension.text)
      (fun style => style.tabWidth != 0) = true)
    (htree : formsTree t.disk.tree = true)
    (hpass : passes (HookGenerator.ofOptions [] t.disk t.options)
      (fun g => (t.standing g second).isSettled g.setup && check g) = true) :
    ∃ g f, t.Contest g f first second ∧ g.outputDirectories t.files = t.directories ∧
    check g = true := by
  obtain ⟨style,hstyle,hw⟩ := exists_of_passes hstyle
  obtain ⟨g,hg,hfound,hdirs,hall⟩ := h.exists_generator _ hpass
  obtain ⟨hsettled,hcheck⟩ := (Bool.and_eq_true _ _).mp hall
  exact ⟨g,_,⟨hg,HookGenerator.follows_of_ofOptions hg,hroot,hslash,
    formatsBy_basic hg hbasic hstyle (by simpa using hw),isFileTree_of_formsTree htree,
      hfound,.refl _,.refl _,
    isComplete_of_standing hdirs hsettled⟩,hdirs,hcheck⟩

end Standing

section Agreement

variable {o : HookOptions} {g : HookGenerator}
variable {files : List Path} {schedule schedule' : Schedule} {w w' : World} {r : Report}

/-- If a run gives a report by one schedule, it gives the same one by every schedule that goes on
while it can, and the disks that are left agree. -/
theorem runs_agree {f : String → String} (hrivals : Rivals g o f w files schedule schedule')
    (horder : InOrder w.disk (g.outputDirectories files))
    (hapart : TemplatesApart g.setup w.disk files)
    (h : run (runBy g schedule) w = (.ok r,w')) :
    ∃ w'', run (runBy g schedule') w = (.ok r,w'') ∧ Agree g.setup f files w.disk w'.disk w''.disk ∧
      ∀ env d, HookGenerator.ofOptions env d o = .ok g → o.formatters.toList = ["basic"] →
      KeepsApart f := by
  obtain ⟨hg,hroot,hslash,hf,htree,hfound,hfiles,hfiles',hcomplete⟩ := hrivals
  by_cases hne : files = []
  · subst hne
    exact ⟨w',by rw [run_runBy_of_nil hfound,h],.refl _ _ _ _ _,
      fun _ _ hg ho => keepsApart_of_basic hg ho hf⟩
  have hplain := plain_of_discover hroot hg htree.names hfound
  have hmem : ∀ p, p ∈ files ↔ p ∈ schedule.files := fun _ => hfiles.mem_iff.symm
  have hmem' : ∀ p, p ∈ schedule'.files ↔ p ∈ files := fun _ => hfiles'.mem_iff
  have hlength : schedule'.files.length = schedule.files.length :=
    (hfiles'.trans hfiles.symm).length_eq
  have hplain₁ : ∀ p ∈ schedule.files, p.Plain := fun p hp => hplain p ((hmem p).2 hp)
  have hdirs : g.outputDirectories schedule.files = g.outputDirectories files :=
    HookGenerator.outputDirectories_congr hroot hg hplain fun p => (hmem p).symm
  have hdirs' : g.outputDirectories schedule'.files = g.outputDirectories files :=
    HookGenerator.outputDirectories_congr hroot hg hplain hmem'
  rw [run_runBy_of_discover hfound hne] at h ⊢
  -- The first run has an outcome, which the definitions decide.
  obtain ⟨w₁,hclean,hprepared,houtcome,entries,hentries,hr⟩ :=
    traced_of_runOn (w := w.begun files.length) hroot hg hslash htree.linkFree hplain₁
      (by rw [hdirs]; exact horder) rfl (interleaves_follow _ _) h
  obtain ⟨-,hreport⟩ := kept_of_clean hclean
  obtain ⟨hhere,hswept⟩ := swept_of_clean
    (w := (w.begun files.length).cleaning schedule.files.length)
    htree.linkFree (HookGenerator.dotless_of_plain hroot hg hplain₁) hclean
  replace hprepared := hprepared.congr hmem
  replace houtcome := houtcome.congr hmem
  have ht : TemplatesApart g.setup w₁.disk files := hapart.of_here hhere.symm
  -- So nothing can go wrong by the other schedule.
  have hclean' : run (clean schedule'.files (g.outputDirectories schedule'.files))
      ((w.begun files.length).cleaning schedule'.files.length) = (.ok (),w₁) := by
    rw [hdirs',hlength,← hdirs]
    exact clean_congr (fun p => (hmem' p).trans (hmem p)) hclean
  have hsettled :=
    hcomplete w₁.processing (prepare_ok.2 ⟨w₁,by rw [hfiles'.length_eq] at *; exact hclean',rfl⟩)
  obtain ⟨r',w'',h'⟩ := runOn_of_feasible hclean' (hprepared.congr hmem')
    ((houtcome.congr hmem').feasible hprepared.ground.linkFree (by
      rw [TemplatesApart,generated_congr hmem']; exact ht) hf) rfl hsettled
  obtain ⟨w₂,hclean₂,-,houtcome',entries',hentries',hr'⟩ :=
    traced_of_runOn (w := w.begun files.length) hroot hg hslash htree.linkFree
      (fun p hp => hplain p ((hmem' p).1 hp)) (by rw [hdirs']; exact horder) rfl
        (interleaves_follow _ _) h'
  obtain rfl : w₁ = w₂ := (Prod.mk.inj (hclean'.symm.trans hclean₂)).2
  replace houtcome' := houtcome'.congr fun p => (hmem' p).symm
  have hperm : entries'.Perm (entriesFor g.setup w₁.disk files) :=
    hentries'.trans (hfiles'.filterMap _)
  have hperm₁ : entries.Perm (entriesFor g.setup w₁.disk files) :=
    hentries.trans (hfiles.filterMap _)
  have hrr : r = r' := by
    rw [hr,hr']
    exact reportOf_congr hplain (fun directory hu =>
      HookGenerator.plain_outputDirectories hroot hg hplain (uses_iff.1 hu)) houtcome
        houtcome' hperm₁ hperm
      (by show w₁.report.skipped = []; rw [hreport]; rfl)
        (by show w₁.report.errors = []; rw [hreport]; rfl)
  refine ⟨w'',by rw [hrr,h'],(houtcome.agree houtcome' hprepared ht hf).congr hhere.symm
    fun p hp => ?_,
    fun _ _ hg ho => keepsApart_of_basic hg ho hf⟩
  obtain ⟨-,bytes,hread⟩ := mem_discover ((HookGenerator.discover_eq_ok hg).1 hfound) hp
  exact plan_swept htree.linkFree hhere hswept hread (houtcome.planned p hp)

end Agreement

theorem queryBesideFragment_agrees : ∃ g f files schedule schedule' r w w',
    Rivals g .standard f (.ofDisk queryBesideFragment) files schedule schedule' ∧
    InOrder queryBesideFragment (g.outputDirectories files) ∧
    TemplatesApart g.setup queryBesideFragment files ∧
    run (runBy g schedule) (.ofDisk queryBesideFragment) = (.ok r,w) ∧
    run (runBy g schedule') (.ofDisk queryBesideFragment) = (.ok r,w') ∧
    Agree g.setup f files queryBesideFragment w.disk w'.disk := by
  obtain ⟨g,r,w,hstandard⟩ := exists_standardRun
  obtain ⟨g',f,⟨hg',hr⟩,-⟩ := isSound_besideFragment.exists_contest byTurns
    (oneByOne 1 0) (fun _ => true)
    (Path.plain_ofString ".") (by decide +kernel) rfl (by decide +kernel) (by decide +kernel)
      (by decide +kernel)
  obtain rfl : g = g' := Except.ok.inj (hstandard.generator.symm.trans hg')
  have horder : InOrder queryBesideFragment (g.outputDirectories queryAndFragment) := by
    rw [hstandard.directories]; exact List.pairwise_singleton _ _
  have hapart : TemplatesApart g.setup queryBesideFragment queryAndFragment :=
    fun directory ht => by
    rw [hstandard.builtIn] at ht; cases ht
  obtain ⟨w',hrun',hagree,-⟩ := runs_agree hr horder hapart hstandard.reported
  exact ⟨g,f,_,_,_,r,w,w',hr,horder,hapart,hstandard.reported,hrun',hagree⟩

def includingTemplates : Trial where
  disk := {
    here := []
    tree := ⟨[(["src"],.directory),(["src","a"],.directory),
      (["src","a","X.graphql"],.file (Text.encode "query X { a }") false),(["src","b"],.directory),
      (["src","b","X.graphql"],.file (Text.encode "query X($v: Int) { b }") false),
      (["t"],.directory),
      (["t","query.j2"],.file (Text.encode "\x7b% include 'gen/useXQuery.ts' %\x7d") false),
      (["t","query_variables.j2"],.file (Text.encode "// X") false)]⟩ }
  options := { HookOptions.standard with outputRoot := some "t/gen", templates := some "t" }
  files := [⟨.here,["src","a","X.graphql"]⟩,⟨.here,["src","b","X.graphql"]⟩]
  directories := [⟨.here,["t","gen"]⟩]

theorem isSound_includingTemplates : includingTemplates.IsSound :=
  Trial.isSound_of_checks (by decide +kernel)

theorem including_disagrees : ∃ g f, includingTemplates.Contest g f (oneByOne 1 0) (oneByOne 0 1) ∧
    InOrder includingTemplates.disk (g.outputDirectories includingTemplates.files) ∧
    (∃ r w, run (runBy g (includingTemplates.schedule (oneByOne 1 0)))
      (.ofDisk includingTemplates.disk) = (.ok r,w)) ∧
    ∃ fault w, run (runBy g (includingTemplates.schedule (oneByOne 0 1)))
      (.ofDisk includingTemplates.disk) = (.error fault,w) := by
  obtain ⟨g,f,hc,hdirs,hcheck⟩ := isSound_includingTemplates.exists_contest
    (oneByOne 1 0) (oneByOne 0 1)
    (fun g => includingTemplates.comesThrough g (oneByOne 1 0) &&
      (includingTemplates.standing g (oneByOne 0 1)).fault.isSome)
    (Path.plain_ofString ".") (by decide +kernel) rfl (by decide +kernel) (by decide +kernel)
      (by decide +kernel)
  obtain ⟨hthrough,hfails⟩ := (Bool.and_eq_true _ _).mp hcheck
  have hfound : g.discover includingTemplates.disk = .ok includingTemplates.files := hc.rivals.found
  obtain ⟨r,w',hrun,-⟩ := run_of_comesThrough (w := .ofDisk includingTemplates.disk) hfound
    (List.cons_ne_nil _ _) hdirs hthrough
  exact ⟨g,f,hc,by rw [hdirs]; exact List.pairwise_singleton _ _,⟨r,w',hrun⟩,
    exists_fault hfound (List.cons_ne_nil _ _) hdirs hthrough hfails⟩

theorem renaming_disagrees : ∃ g f, leftDirectory.Contest g f (oneByOne 0 1) (oneByOne 1 0) ∧
    TemplatesApart g.setup leftDirectory.disk leftDirectory.files ∧
    ((g.outputDirectories leftDirectory.files).Pairwise fun first second =>
      placeOf leftDirectory.disk second <+: placeOf leftDirectory.disk first →
        placeOf leftDirectory.disk second = placeOf leftDirectory.disk first) ∧
    DisagreeOnIndex g leftDirectory.disk leftDirectory.files (leftDirectory.schedule (oneByOne 0 1))
      (leftDirectory.schedule (oneByOne 1 0)) := by
  obtain ⟨g,f,hc,hdirs,hcheck⟩ := isSound_leftDirectory.exists_contest (oneByOne 0 1) (oneByOne 1 0)
    (fun g => leftDirectory.comesThrough g (oneByOne 0 1) &&
      leftDirectory.comesThrough g (oneByOne 1 0) &&
      leftDirectory.indexAfter g (oneByOne 0 1) ⟨.here,["hooks"]⟩ ==
        some (.file (Text.encode "export * from './useAQuery';\n") false) &&
      leftDirectory.indexAfter g (oneByOne 1 0) ⟨.here,["hooks"]⟩ ==
        some (.file (Text.encode "export * from './useBQuery';\n") false) &&
      g.setup.hook.templates == some ⟨.here,[".t"]⟩)
    (Path.plain_ofString ".") (by decide +kernel) rfl (by decide +kernel) (by decide +kernel)
      (by decide +kernel)
  simp only [Bool.and_eq_true,beq_iff_eq] at hcheck
  obtain ⟨⟨⟨⟨hfirst,hsecond⟩,hx⟩,hy⟩,htemplates⟩ := hcheck
  refine ⟨g,f,hc,templatesApart_of_outputDirectories htemplates ?_,?_,
    disagreeOnIndex_of_standing hc.rivals.found (List.cons_ne_nil _ _) hdirs hfirst hsecond
      (by simp [leftDirectory]) hx hy (by decide +kernel)⟩ <;> rw [hdirs] <;> decide +kernel

/-- A fragment that a pattern finds by way of a directory of hooks from an earlier run, and by way
of another one. -/
def brokenWay : Trial where
  disk := {
    here := ["c","work"]
    tree := ⟨[(["c"],.directory),(["c","work"],.directory),(["c","work","+"],.directory),
      (["c","work","+","+"],.directory),(["c","work","+","+","+"],.directory),
      (["c","work","+","q"],.directory),
      (["c","work","+","q","A.graphql"],.file (Text.encode "query A { a }") false),
      (["c","work","s"],.directory),
      (["c","work","s","F.graphql"],.file (Text.encode "fragment F on T { f }") false),
      (["c","work","s","x"],.directory),(["c","work","s","x","y"],.directory),
      (["c","work","s","x","y","z"],.directory),(["c","work",".t"],.directory),
      (["c","work",".t","query.j2"],.file (Text.encode "// X") false)]⟩ }
  options := { HookOptions.standard with
    pattern := "**/../../../../[w+]*/*/*.graphql", destination := "../+/+", templates := some ".t" }
  files := [⟨.here,["+","+","+","..","..","..","..","work","s","F.graphql"]⟩,
    ⟨.here,["s","x","y","..","..","..","..","work","s","F.graphql"]⟩,
    ⟨.here,["s","x","y","z","..","..","..","..","+","q","A.graphql"]⟩]
  directories := [⟨.here,["+","+","+"]⟩,⟨.here,["..","work","+","+"]⟩]

theorem isSound_brokenWay : brokenWay.IsSound := Trial.isSound_of_checks (by decide +kernel)

def queryFirst : List Nat := List.replicate maxSteps 2 ++ oneByOne 0 1
def fragmentFirst : List Nat := oneByOne 0 1 ++ List.replicate maxSteps 2

/-- Where the cleaning of one output directory takes away another one on the way to a definition,
the definition can be read only after hooks have come to that other one. -/
theorem removing_disagrees : ∃ g f, brokenWay.Contest g f queryFirst fragmentFirst ∧
    TemplatesApart g.setup brokenWay.disk brokenWay.files ∧
    ((g.outputDirectories brokenWay.files).Pairwise fun first second =>
      placeOf brokenWay.disk second ≠ placeOf brokenWay.disk first) ∧
    (∃ r w, run (runBy g (brokenWay.schedule queryFirst)) (.ofDisk brokenWay.disk) = (.ok r,w)) ∧
    ∃ fault w, run (runBy g (brokenWay.schedule fragmentFirst)) (.ofDisk brokenWay.disk) =
      (.error fault,w) := by
  obtain ⟨g,f,hc,hdirs,hcheck⟩ := isSound_brokenWay.exists_contest queryFirst fragmentFirst
    (fun g => brokenWay.comesThrough g queryFirst &&
      (brokenWay.standing g fragmentFirst).fault.isSome &&
      g.setup.hook.templates == some ⟨.here,[".t"]⟩)
    (Path.plain_ofString ".") (by decide +kernel) rfl (by decide +kernel) (by decide +kernel)
      (by decide +kernel)
  simp only [Bool.and_eq_true,beq_iff_eq] at hcheck
  obtain ⟨⟨hthrough,hfails⟩,htemplates⟩ := hcheck
  have hfound : g.discover brokenWay.disk = .ok brokenWay.files := hc.rivals.found
  obtain ⟨r,w',hrun,-⟩ := run_of_comesThrough (w := .ofDisk brokenWay.disk) hfound
    (List.cons_ne_nil _ _) hdirs hthrough
  refine ⟨g,f,hc,templatesApart_of_outputDirectories htemplates ?_,?_,⟨r,w',hrun⟩,
    exists_fault hfound (List.cons_ne_nil _ _) hdirs hthrough hfails⟩ <;>
      rw [hdirs] <;> decide +kernel

def nestedHooks : Trial where
  disk := {
    here := []
    tree := ⟨[(["src"],.directory),(["src","a"],.directory),
      (["src","a","A.graphql"],.file (Text.encode "query A { a }") false),
      (["src","hooks"],.directory),(["src","hooks","b"],.directory),
      (["src","hooks","b","B.graphql"],.file (Text.encode "query B { b }") false),
      (["t"],.directory),(["t","query.j2"],.file (Text.encode "// X") false)]⟩ }
  options := { HookOptions.standard with destination := "../hooks/hooks" }
  files := [⟨.here,["src","a","A.graphql"]⟩,⟨.here,["src","hooks","b","B.graphql"]⟩]
  directories := [⟨.here,["src","hooks","hooks"]⟩,⟨.here,["src","hooks","hooks","hooks"]⟩]

theorem isSound_nestedHooks : nestedHooks.IsSound := Trial.isSound_of_checks (by decide +kernel)

def heading (text : String) : String := "// hooks\n" ++ text

/-- A generator with a formatter that puts a line in front of every text. -/
def headed : HookGenerator where
  options := nestedHooks.options
  setup :=
    { policy := .first
      hook := ⟨"use","ts","../hooks/hooks",none,true,some (.ofString "t"),
        fun _ text => .ok (heading text),
        fun _ text => .ok text.error⟩
      index := ⟨"ts",false,standardNested,fun _ text => .ok (heading text)⟩ }

theorem heading_disagrees :
    Rivals headed nestedHooks.options heading (.ofDisk nestedHooks.disk) nestedHooks.files
      (nestedHooks.schedule (oneByOne 0 1)) (nestedHooks.schedule (oneByOne 1 0)) ∧
    TemplatesApart headed.setup nestedHooks.disk nestedHooks.files ∧
    InOrder nestedHooks.disk (headed.outputDirectories nestedHooks.files) ∧
    DisagreeOnIndex headed nestedHooks.disk nestedHooks.files (nestedHooks.schedule (oneByOne 0 1))
      (nestedHooks.schedule (oneByOne 1 0)) := by
  have hfollows : headed.Follows nestedHooks.options := ⟨_,_,_,rfl⟩
  have hfound : headed.discover nestedHooks.disk = .ok nestedHooks.files :=
    (HookGenerator.discover_eq_ok hfollows).2 isSound_nestedHooks.found
  have hdirs : headed.outputDirectories nestedHooks.files = nestedHooks.directories :=
    (HookGenerator.outputDirectories_eq hfollows _).trans isSound_nestedHooks.outputs
  have hall :
      (nestedHooks.comesThrough headed (oneByOne 0 1) &&
        nestedHooks.comesThrough headed (oneByOne 1 0) &&
      (nestedHooks.standing headed (oneByOne 1 0)).isSettled headed.setup &&
      nestedHooks.indexAfter headed (oneByOne 0 1) ⟨.here,["src","hooks","hooks"]⟩ ==
        some (.file (Text.encode "// hooks\nexport * from './useAQuery';\n") false) &&
      nestedHooks.indexAfter headed (oneByOne 1 0) ⟨.here,["src","hooks","hooks"]⟩ ==
        some (.file (Text.encode
          "// hooks\nexport * from './hooks';\nexport * from './useAQuery';\n") false)) = true := by
    decide +kernel
  simp only [Bool.and_eq_true,beq_iff_eq] at hall
  obtain ⟨⟨⟨⟨hfirst,hsecond⟩,hsettled⟩,hx⟩,hy⟩ := hall
  have hr : Rivals headed nestedHooks.options heading (.ofDisk nestedHooks.disk) nestedHooks.files
      (nestedHooks.schedule (oneByOne 0 1)) (nestedHooks.schedule (oneByOne 1 0)) :=
    ⟨hfollows,Path.plain_ofString ".",by decide +kernel,fun _ _ => ⟨rfl,rfl⟩,
      isFileTree_of_formsTree (by decide +kernel),hfound,.refl _,.refl _,
      isComplete_of_standing hdirs hsettled⟩
  refine ⟨hr,templatesApart_of_outputDirectories rfl ?_,?_,
    disagreeOnIndex_of_standing hfound (List.cons_ne_nil _ _) hdirs hfirst hsecond
      (by simp [nestedHooks]) hx hy (by decide +kernel)⟩ <;> rw [hdirs]
  · decide +kernel
  · rw [InOrder]
    decide +kernel

/-- Not every two schedules agree if a template may include what the run writes, if two output
directories may be one place, if one may be made anew after one that it is above, or if a formatter
may put something in front of an index. -/
theorem schedules_disagree :
    (∃ g f, includingTemplates.Contest g f (oneByOne 1 0) (oneByOne 0 1) ∧
      InOrder includingTemplates.disk (g.outputDirectories includingTemplates.files) ∧
      (∃ r w, run (runBy g (includingTemplates.schedule (oneByOne 1 0)))
        (.ofDisk includingTemplates.disk) = (.ok r,w)) ∧
      ∃ fault w, run (runBy g (includingTemplates.schedule (oneByOne 0 1)))
        (.ofDisk includingTemplates.disk) = (.error fault,w)) ∧
    (∃ g f, leftDirectory.Contest g f (oneByOne 0 1) (oneByOne 1 0) ∧
      TemplatesApart g.setup leftDirectory.disk leftDirectory.files ∧
      ((g.outputDirectories leftDirectory.files).Pairwise fun first second =>
        placeOf leftDirectory.disk second <+: placeOf leftDirectory.disk first →
          placeOf leftDirectory.disk second = placeOf leftDirectory.disk first) ∧
      DisagreeOnIndex g leftDirectory.disk leftDirectory.files
        (leftDirectory.schedule (oneByOne 0 1)) (leftDirectory.schedule (oneByOne 1 0))) ∧
    (∃ g f, brokenWay.Contest g f queryFirst fragmentFirst ∧
      TemplatesApart g.setup brokenWay.disk brokenWay.files ∧
      ((g.outputDirectories brokenWay.files).Pairwise fun first second =>
        placeOf brokenWay.disk second ≠ placeOf brokenWay.disk first) ∧
      (∃ r w, run (runBy g (brokenWay.schedule queryFirst)) (.ofDisk brokenWay.disk) = (.ok r,w)) ∧
      ∃ fault w, run (runBy g (brokenWay.schedule fragmentFirst)) (.ofDisk brokenWay.disk) =
        (.error fault,w)) ∧
    Rivals headed nestedHooks.options heading (.ofDisk nestedHooks.disk) nestedHooks.files
      (nestedHooks.schedule (oneByOne 0 1)) (nestedHooks.schedule (oneByOne 1 0)) ∧
    TemplatesApart headed.setup nestedHooks.disk nestedHooks.files ∧
    InOrder nestedHooks.disk (headed.outputDirectories nestedHooks.files) ∧
    DisagreeOnIndex headed nestedHooks.disk nestedHooks.files (nestedHooks.schedule (oneByOne 0 1))
      (nestedHooks.schedule (oneByOne 1 0)) :=
  ⟨including_disagrees,renaming_disagrees,removing_disagrees,heading_disagrees⟩

end OperationHooks.Run
