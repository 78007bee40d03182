import OperationHooks.Proofs.Run.Reading
import OperationHooks.Proofs.Run.Trial
import OperationHooks.Proofs.Run.Verdict
import OperationHooks.Proofs.Run.Whole
/-!
Whole runs on any disk. Every file that was discovered has exactly one entry in the report, and it
is the one that the verdict on its text comes to; the text is what the task for the file has read.
-/
set_option autoImplicit false

namespace OperationHooks.Run
open Effect Disk Index

def started (g : HookGenerator) (files : List Path) (w : World) : Progress :=
  .start files (run (prepare g files) (w.begun files.length)).2

def seenBy (g : HookGenerator) (files : List Path) (steps : List Nat) (w : World) : Path → Disk :=
  (started g files w).diskAt g.setup steps

structure Carried (g : HookGenerator) (files : List Path) (steps : List Nat)
    (w w' : World) (r : Report) :
    Prop where
  cleaned : ∃ w₁, run (clean files (g.outputDirectories files)) ((w.begun files.length).cleaning
    files.length) = (.ok (),w₁) ∧ started g files w = .start files w₁.processing
  planned : ∀ path ∈ files, plan g.setup (seenBy g files steps w path) path ≠ .fail
  report : ∃ entries, entries.Perm
    (files.filterMap fun path => (plan g.setup (seenBy g files steps w path) path).entry g.setup) ∧
    r = reportOf g.setup (started g files w).world.report entries w'.indexes
  untouched : ∀ before, before <+: steps → ∀ c bytes executable,
    (started g files w).world.disk.tree.get? c = some (.file bytes executable) →
    Untouched (IsWritten g.setup (seenBy g files steps w) files) c bytes executable
      ((started g files w).follow g.setup before).world.disk
  filled : ∀ before, before <+: steps → Changed Tree.Filled (started g files w).world.disk
    ((started g files w).follow g.setup before).world.disk
  final : Changed Tree.Filled (started g files w).world.disk w'.disk
  modules : ∀ path ∈ files, ∀ d, plan g.setup (seenBy g files steps w path) path = .make d →
    HasRendering g.setup (Passes g.setup (started g files w) steps)
      (IsWrittenBeside g.setup (seenBy g files steps w) files path) d w'.disk

section Carried

variable {o : HookOptions} {g : HookGenerator} {files : List Path} {steps : List Nat} {w w' : World}
variable {r : Report}

section Started

variable {w₁ : World}
  (hclean : run (clean files (g.outputDirectories files)) ((w.begun files.length).cleaning
  files.length) = (.ok (),w₁))

include hclean

theorem started_of_clean : started g files w = .start files w₁.processing := by
  rw [started,prepare_ok (u := ()) |>.2 ⟨w₁,hclean,rfl⟩]

theorem report_started : (started g files w).world.report =
    { Report.empty with phase := .processing, discovered := files.length } := by
  obtain ⟨-,hkept⟩ := kept_of_clean hclean
  have hw₁ : (started g files w).world.report = { w₁.report with phase := .processing } := by
    rw [started_of_clean hclean]; rfl
  rw [hw₁,hkept]
  rfl

end Started

theorem carried_of_runOn (hnodup : files.Nodup)
    (h : run (runOn g files (Progress.follow g.setup steps)) (w.begun files.length) = (.ok r,w')) :
    Carried g files steps w w' r := by
  obtain ⟨w₁,p,paths,inner,hclean,rfl,hfault,hfinished,hflush,rfl,rfl⟩ := runOn_ok.1 h
  have hstarted := started_of_clean hclean
  obtain ⟨hkept,-⟩ := kept_of_clean hclean
  have hindexes : w₁.processing.indexes = [] := hkept
  rw [← hstarted] at hfault hfinished hflush ⊢
  have halong : ∀ before, before <+: steps → Along g.setup (seenBy g files steps w) files
      (Passes g.setup (started g files w) steps) w₁.processing before
      ((started g files w).follow g.setup before) := by
    intro before hb
    rw [seenBy,hstarted]
    rw [hstarted] at hfault
    exact along_of_follow hindexes hnodup hfault hb
  have hend := halong steps (List.prefix_refl _)
  refine ⟨⟨w₁,hclean,hstarted⟩,fun path hm hfail => ?_,?_,fun before hb => ?_,
    fun before hb => ?_,?_,
    fun path hm d hd => ?_⟩
  · obtain ⟨t,ht,rfl,hstage⟩ := hend.task_of_file hfinished hm
    have hfit := hend.told.fits t ht
    rw [Fits,hstage] at hfit
    obtain ⟨entry,he⟩ := hfit
    rw [hfail] at he
    cases he
  · obtain ⟨entries,he,hperm⟩ := hend.told.report
    have hstart : (started g files w).world.report = w₁.processing.report := by rw [hstarted]; rfl
    refine ⟨entries,hperm.trans (.of_eq (hend.entriesSeen_of_finished hfinished)),?_⟩
    rw [reportOf,hstart,← he]
    rfl
  · have hw := (halong before hb).wrote
    rw [hstarted]
    rw [hstarted] at hw
    exact hw.untouched
  · have hw := (halong before hb).wrote
    rw [hstarted]
    rw [hstarted] at hw
    exact hw.filled
  · have hbefore : Changed Tree.Filled (started g files w).world.disk
        ((started g files w).follow g.setup steps).world.disk := by
      have hw := hend.wrote.filled
      rw [hstarted] at hw ⊢
      exact hw
    exact (disk_of_flushAll (fun _ _ _ _ _ hb hs => hb.filled_trans hs.filled) hflush hbefore :)
  · obtain ⟨t,ht,rfl,hstage⟩ := hend.task_of_file hfinished hm
    have hemitted : t.HasEmitted := by
      rw [Task.HasEmitted,hstage]
      trivial
    have hbefore := hend.wrote.modules t ht hemitted d hd
    have hindexed :
        ∀ directory ∈ ((started g files w).follow g.setup steps).world.indexes.directories,
        IsWrittenBeside g.setup (seenBy g files steps w) files t.path
          (g.setup.index.indexPath directory) := fun directory hdir => by
      obtain ⟨other,ho,hindex⟩ := hend.wrote.listed directory hdir
      exact ⟨other,ho,.inr hindex⟩
    exact (disk_of_flushAll (fun directory hdir _ _ _ hb hs =>
      hb.saved (hindexed directory hdir) hs) hflush
      hbefore :)

end Carried

/-- Each file has one entry in a report, and it is the one that its verdict comes to. -/
structure Accounts (s : Setup) (files : List Path) (verdict : Path → Verdict)
    (r : Report) : Prop where
  discovered : r.discovered = files.length
  total : r.discovered = r.generated.length + r.skipped.length + r.errors.length
  generated : r.generated.Perm (files.filterMap fun p => ((verdict p).entry s p).generated?)
  skipped : r.skipped.Perm (files.filterMap fun p => ((verdict p).entry s p).skipped?)
  errors : r.errors.Perm (files.filterMap fun p => ((verdict p).entry s p).error?)
  own : ∀ p ∈ files,
    r.skipped.filter (·.path = p.text) = ((verdict p).entry s p).skipped?.toList ∧
    r.errors.filter (·.path = p.text) = ((verdict p).entry s p).error?.toList

section Accounts

variable {s : Setup} {g : HookGenerator} {files : List Path} {steps : List Nat}
  {w w' : World} {r : Report}
variable {verdict : Path → Verdict} {p : Path}

theorem length_of_entries (entries : List Entry) : entries.length =
    (entries.filterMap Entry.generated?).length + (entries.filterMap Entry.skipped?).length +
      (entries.filterMap Entry.error?).length := by
  induction entries with
  | nil => rfl
  | cons entry rest ih =>
    cases entry <;> simp only [List.filterMap_cons,Entry.generated?,Entry.skipped?,Entry.error?,
      List.length_cons,ih] <;> omega

theorem Verdict.path_of_skipped {v : Verdict} {o : FileOutcome}
    (h : (v.entry s p).skipped? = some o) : o.path = p.text := by
  cases v <;> cases h <;> rfl

theorem Verdict.path_of_error {v : Verdict} {o : FileOutcome}
    (h : (v.entry s p).error? = some o) : o.path = p.text := by
  cases v <;> cases h <;> rfl

theorem filter_outcomes {f : Path → Option FileOutcome} (hf : ∀ p o, f p = some o → o.path = p.text)
    (hnodup : files.Nodup) (hplain : ∀ p ∈ files, p.Plain) (hp : p ∈ files) :
    (files.filterMap f).filter (·.path = p.text) = (f p).toList := by
  have hother : ∀ q ∈ files, q ≠ p → (f q).filter (·.path = p.text) = none := by
    intro q hq hne
    cases ho : f q with
    | none => rfl
    | some o =>
      have htext : o.path ≠ p.text := fun he =>
        hne (Path.text_injective (hplain q hq) (hplain p hp) ((hf q o ho).symm.trans he))
      simp [Option.filter,htext]
  have hself : (f p).filter (·.path = p.text) = f p := by
    cases ho : f p with
    | none => rfl
    | some o => simp [Option.filter,hf p o ho]
  obtain ⟨before,after,rfl⟩ := List.append_of_mem hp
  have hapart : p ∉ before ∧ p ∉ after := by
    obtain ⟨-,hcons,hdisjoint⟩ := List.nodup_append.1 hnodup
    exact ⟨fun hm => hdisjoint p hm p List.mem_cons_self rfl,(List.nodup_cons.1 hcons).1⟩
  have hbefore : before.filterMap (fun q => (f q).filter (·.path = p.text)) = [] :=
    List.filterMap_eq_nil_iff.2 fun q hq => hother q (by simp [hq]) fun he => hapart.1 (he ▸ hq)
  have hafter : after.filterMap (fun q => (f q).filter (·.path = p.text)) = [] :=
    List.filterMap_eq_nil_iff.2 fun q hq => hother q (by simp [hq]) fun he => hapart.2 (he ▸ hq)
  rw [List.filter_filterMap,List.filterMap_append,List.filterMap_cons,hbefore,hafter,hself]
  cases f p <;> rfl

theorem eq_toList_of_perm {α : Type} {xs : List α} {x : Option α} (h : xs.Perm x.toList) :
    xs = x.toList := by
  cases x with
  | none => exact h.eq_nil
  | some x => exact List.perm_singleton.1 h

theorem Accounts.of_perm {files' : List Path} (h : Accounts s files' verdict r)
    (hp : files'.Perm files) :
    Accounts s files verdict r :=
  ⟨by rw [h.discovered,hp.length_eq],h.total,h.generated.trans (hp.filterMap _),
    h.skipped.trans (hp.filterMap _),h.errors.trans (hp.filterMap _),fun p hm =>
      h.own p (hp.mem_iff.2 hm)⟩

theorem Carried.lists (h : Carried g files steps w w' r) : ∃ entries : List Entry,
    entries.Perm (files.filterMap
      fun p => (plan g.setup (seenBy g files steps w p) p).entry g.setup) ∧
      r.discovered = files.length ∧ r.generated.Perm (entries.filterMap Entry.generated?) ∧
      r.skipped.Perm (entries.filterMap Entry.skipped?) ∧
      r.errors.Perm (entries.filterMap Entry.error?) := by
  obtain ⟨w₁,hclean,-⟩ := h.cleaned
  obtain ⟨entries,hentries,hr⟩ := h.report
  rw [reportOf,report_started hclean,foldl_add] at hr
  subst hr
  exact ⟨entries,hentries,rfl,List.mergeSort_perm _ _,List.mergeSort_perm _ _,
    List.mergeSort_perm _ _⟩

theorem Carried.accounts (h : Carried g files steps w w' r) (hnodup : files.Nodup)
    (hplain : ∀ p ∈ files, p.Plain)
    (hverdict : ∀ p ∈ files, (plan g.setup (seenBy g files steps w p) p).entry g.setup =
      some ((verdict p).entry g.setup p)) : Accounts g.setup files verdict r := by
  obtain ⟨entries,hentries,hdiscovered,hgenerated,hskipped,herrors⟩ := h.lists
  have hmap : entries.Perm (files.map fun p => (verdict p).entry g.setup p) := by
    refine hentries.trans (.of_eq ?_)
    rw [← List.filterMap_eq_map]
    exact List.filterMap_congr hverdict
  have hlist : ∀ {α : Type} (f : Entry → Option α), (entries.filterMap f).Perm
      (files.filterMap fun p => f ((verdict p).entry g.setup p)) := by
    intro α f
    refine (hmap.filterMap f).trans (.of_eq ?_)
    rw [List.filterMap_map]
    rfl
  refine ⟨hdiscovered,?_,hgenerated.trans (hlist _),hskipped.trans (hlist _),
    herrors.trans (hlist _),
    fun p hp => ⟨?_,?_⟩⟩
  · have hlength := length_of_entries entries
    rw [hmap.length_eq,List.length_map] at hlength
    rw [hdiscovered,hgenerated.length_eq,hskipped.length_eq,herrors.length_eq]
    exact_mod_cast hlength
  · refine eq_toList_of_perm (((hskipped.trans (hlist _)).filter _).trans (.of_eq ?_))
    exact filter_outcomes (f := fun p => ((verdict p).entry g.setup p).skipped?)
      (fun _ _ => Verdict.path_of_skipped) hnodup hplain hp
  · refine eq_toList_of_perm (((herrors.trans (hlist _)).filter _).trans (.of_eq ?_))
    exact filter_outcomes (f := fun p => ((verdict p).entry g.setup p).error?)
      (fun _ _ => Verdict.path_of_error) hnodup hplain hp

end Accounts

section Sources

variable {o : HookOptions} {g : HookGenerator} {files : List Path} {steps : List Nat} {w w' : World}
variable {r : Report} {p q : Path} {source : String} {schedule : Schedule}

theorem place_of_leadsTo {d : Disk} {c : Place} (hl : LinkFree d.tree) (h : LeadsTo d p c) :
    c = placeOf d p := by
  obtain ⟨bytes,executable,hw⟩ := h
  exact place_of_walk hl hw

theorem Carried.source_or_written (h : Carried g files steps w w' r) (hl : LinkFree w.disk.tree)
    (hdots : ∀ directory ∈ g.outputDirectories files, directory.Dotless) (hp : p ∈ files)
    {bytes : List UInt8} (hread : w.disk.read p = .ok bytes)
    (hsource : HasSource (seenBy g files steps w p) p source) : HasSource w.disk p source ∨
      ∃ q, IsWritten g.setup (seenBy g files steps w) files q ∧ placeOf w.disk q =
        placeOf w.disk p := by
  obtain ⟨w₁,hclean,hstarted⟩ := h.cleaned
  obtain ⟨hhere,hswept⟩ :=
    swept_of_clean (w := (w.begun files.length).cleaning files.length) hl hdots hclean
  have hbase : (started g files w).world.disk = w₁.disk := by rw [hstarted]; rfl
  obtain ⟨c,executable,hw⟩ := read_eq_ok.1 hread
  obtain rfl : c = placeOf w.disk p := place_of_walk hl hw
  have hget : w.disk.tree.get? (placeOf w.disk p) = some (.file bytes executable) := get?_of_walk hw
  -- Cleaning leaves what is not below an output directory, and no definition is.
  have hcleaned : (started g files w).world.disk.tree.get? (placeOf w.disk p) =
      some (.file bytes executable) := by
    rw [hbase]
    have hout := outside_of_clean
      (w := (w.begun files.length).cleaning files.length) hl hdots hclean
      (q := placeOf w.disk p) fun directory hd => apart_of_clean
        (w := (w.begun files.length).cleaning files.length) hl hdots hclean directory hd p hp
    rcases hout with he | ⟨hn,-⟩
    · exact he.trans hget
    · cases hn.symm.trans hget
  have hbefore := List.takeWhile_prefix
    (p := (· ≠ ((started g files w).tasks.map Task.path).idxOf p)) (l := steps)
  have hfilled : Changed Tree.Filled w₁.disk (seenBy g files steps w p) :=
    hbase ▸ h.filled _ hbefore
  have hplace : ∀ q, placeOf (seenBy g files steps w p) q = placeOf w.disk q :=
    placeOf_eq (hfilled.1.trans hhere)
  have hl' : LinkFree (seenBy g files steps w p).tree := fun q target hq =>
    hswept.linkFree hl q target (hfilled.2.links q target hq)
  rcases h.untouched _ hbefore _ bytes executable hcleaned with hkept | ⟨q,hq,hlead⟩
  · obtain ⟨bytes',text,hread',hdecode,rfl⟩ := hsource
    obtain ⟨c,executable',hw'⟩ := read_eq_ok.1 hread'
    have hc : c = placeOf w.disk p := (place_of_walk hl' hw').trans (hplace p)
    have hget' := get?_of_walk hw'
    rw [hc] at hget'
    obtain ⟨rfl,-⟩ := Disk.Entry.file.inj (Option.some.inj (hkept.symm.trans hget'))
    exact .inl ⟨bytes,text,hread,hdecode,rfl⟩
  · exact .inr ⟨q,hq,by rw [← hplace q,← place_of_leadsTo hl' hlead]⟩

theorem below_of_written (hg : g.Follows o) (hslash : '/' ∉ o.namePrefix.toList)
    {seen : Path → Disk}
    (h : IsWritten g.setup seen files q) (d : Disk) :
    ∃ directory ∈ g.outputDirectories files,
      Tree.isBelow (placeOf d directory) (placeOf d q) = true := by
  obtain ⟨path,hm,h⟩ := h
  have hdirectory : g.setup.hook.outputDirectory path ∈ g.outputDirectories files :=
    HookGenerator.mem_outputDirectories.2 ⟨path,hm,rfl⟩
  have hfree := isSlashFree_of_follows hg hslash
  have houtput : ∀ e, plan g.setup (seen path) path = .make e → g.setup.hook.outputPath e =
      childOf (g.setup.hook.outputDirectory path) (g.setup.hook.fileName e) := by
    intro e he
    rw [hfree.outputPath_eq (isNamed_of_plan he),sourcePath_of_plan he]
  refine ⟨_,hdirectory,?_⟩
  rcases h with ⟨e,he,rfl⟩ | ⟨e,he,rfl⟩
  · obtain ⟨hpart,hup⟩ := hfree.isPart (isNamed_of_plan he)
    rw [houtput e he,placeOf_childOf d _ hpart.2.1 hup]
    exact Tree.isBelow_concat _ _
  · obtain ⟨hpart,hup,-⟩ := isPart_indexName hg
    rw [houtput e he,parent_childOf,Index.Settings.indexPath,div_part _ hpart,
      placeOf_childOf d _ hpart.2.1 hup]
    exact Tree.isBelow_concat _ _

/-- Every file that was discovered has one verdict, by the text its task has read, and the report
has one entry for it. Without links that is the text from before the run, as long as nothing is
written over it. -/
theorem report_accounts (hroot : o.root.Plain) (hg : g.Follows o) (hnames : HasNames w.disk)
    (hfound : g.discover w.disk = .ok files) (hfiles : schedule.files.Perm files)
    (h : run (runBy g schedule) w = (.ok r,w')) :
    ∃ (source : Path → String) (verdict : Path → Verdict), Accounts g.setup files verdict r ∧
      ∀ p ∈ files,
      HasSource (seenBy g schedule.files schedule.steps w p) p (source p) ∧
      (∀ v, Judged g.setup p (source p) v ↔ v = verdict p) ∧
      (LinkFree w.disk.tree → HasSource w.disk p (source p) ∨ '/' ∈ o.namePrefix.toList ∧
        ∃ q, IsWritten g.setup (seenBy g schedule.files schedule.steps w) schedule.files q ∧
          placeOf w.disk q = placeOf w.disk p) := by
  by_cases hne : files = []
  · subst hne
    have hr := report_of_nil hfound h
    subst hr
    exact ⟨fun _ => "",fun _ => .noOperation,⟨rfl,rfl,.refl _,.refl _,.refl _,by simp⟩,by simp⟩
  have hplain := plain_of_discover hroot hg hnames hfound
  have hmem : ∀ p, p ∈ files ↔ p ∈ schedule.files := fun _ => hfiles.mem_iff.symm
  have hplain' : ∀ p ∈ schedule.files, p.Plain := fun p hp => hplain p ((hmem p).2 hp)
  have hnodup : schedule.files.Nodup :=
    hfiles.nodup_iff.2 (nodup_discover ((HookGenerator.discover_eq_ok hg).1 hfound))
  rw [run_runBy_of_discover hfound hne,← hfiles.length_eq] at h
  have hcarried := carried_of_runOn hnodup h
  have hall : ∀ p, ∃ source v, p ∈ schedule.files →
      HasSource (seenBy g schedule.files schedule.steps w p) p source ∧
      Judged g.setup p source v := by
    intro p
    by_cases hp : p ∈ schedule.files
    · rcases plan_cases g.setup (seenBy g schedule.files schedule.steps w p) p with
        hf | ⟨source,v,hv⟩
      · exact absurd hf (hcarried.planned p hp)
      · exact ⟨source,v,fun _ => hv⟩
    · exact ⟨"",.noOperation,fun hp' => absurd hp' hp⟩
  choose source verdict hverdict using hall
  have haccounts := hcarried.accounts hnodup hplain' fun p hp =>
    entry_of_judged (hverdict p hp).1 (hverdict p hp).2
  refine ⟨source,verdict,haccounts.of_perm hfiles,fun p hp => ?_⟩
  have hp' := (hmem p).1 hp
  obtain ⟨hsource,hjudged⟩ := hverdict p hp'
  refine ⟨hsource,fun v => ⟨fun hv => hv.unique hjudged,fun hv => hv ▸ hjudged⟩,fun hl => ?_⟩
  have hdots := HookGenerator.dotless_of_plain hroot hg hplain'
  obtain ⟨-,bytes,hread⟩ := mem_discover ((HookGenerator.discover_eq_ok hg).1 hfound) hp
  rcases hcarried.source_or_written hl hdots hp' hread hsource with hs | ⟨q,hq,he⟩
  · exact .inl hs
  by_cases hslash : '/' ∈ o.namePrefix.toList
  · exact .inr ⟨hslash,q,hq,he⟩
  · obtain ⟨w₁,hclean,-⟩ := hcarried.cleaned
    obtain ⟨directory,hd,hbelow⟩ := below_of_written hg hslash hq w.disk
    have hapart := apart_of_clean
      (w := (w.begun schedule.files.length).cleaning schedule.files.length)
      hl hdots hclean directory hd p hp'
    rw [he] at hbelow
    exact absurd (hapart.symm.trans hbelow) (by decide)

end Sources

theorem queryBesideFragment_accounts : ∃ g files steps r w', g.Follows .standard ∧
    HasNames queryBesideFragment ∧ g.discover queryBesideFragment = .ok files ∧
    run (runBy g ⟨files,steps⟩) (.ofDisk queryBesideFragment) = (.ok r,w') ∧
    ∃ verdict, Accounts g.setup files verdict r := by
  obtain ⟨g,r,w',hstandard⟩ := exists_standardRun
  have hfollows := HookGenerator.follows_of_ofOptions hstandard.generator
  have hnames := isFileTree_queryBesideFragment.names
  have hlisted : (Schedule.mk queryAndFragment byTurns).files.Perm queryAndFragment := .refl _
  obtain ⟨source,verdict,haccounts,-⟩ := report_accounts (w := .ofDisk queryBesideFragment)
    (Path.plain_ofString ".") hfollows hnames hstandard.found hlisted hstandard.reported
  exact ⟨g,_,byTurns,r,w',hfollows,hnames,hstandard.found,hstandard.reported,verdict,haccounts⟩

def LeavesOut (o : HookOptions) (d : Disk) : Prop :=
  ∃ g files steps r w p source e, HookGenerator.ofOptions [] d o = .ok g ∧
    g.discover d = .ok files ∧
    run (runBy g ⟨files,steps⟩) (.ofDisk d) = (.ok r,w) ∧ p ∈ files ∧ HasSource d p source ∧
    Judged g.setup p source (.hooked e) ∧ (g.setup.hook.outputPath e).text ∉ r.generated

def isLeftOut (g : HookGenerator) (d : Disk) (p : Path) (generated : List String) : Bool :=
  match plan g.setup d p with
  | .make e => !generated.contains (g.setup.hook.outputPath e).text
  | _ => false

theorem leavesOut_of_standing {t : Trial} (ht : t.IsSound) (steps : List Nat) (p : Path)
    (hp : p ∈ t.files)
    (hpass : passes (HookGenerator.ofOptions [] t.disk t.options)
      (fun g => t.comesThrough g steps &&
      isLeftOut g t.disk p (t.standing g steps).world.report.generated) = true) :
    LeavesOut t.options t.disk := by
  obtain ⟨g,r,w,hrun,hout⟩ := ht.exists_runs (List.ne_nil_of_mem hp) steps _ hpass
  unfold isLeftOut at hout
  cases hplan : plan g.setup t.disk p with
  | make e =>
    rw [hplan] at hout
    obtain ⟨source,hsource,hjudged⟩ := make_iff.1 hplan
    refine ⟨g,t.files,steps,r,w,p,source,e,hrun.generator,hrun.found,hrun.reported,
      hp,hsource,hjudged,
      fun hm => ?_⟩
    simp [hrun.generated.mem_iff.1 hm] at hout
  | report entry => rw [hplan] at hout; cases hout
  | fail => rw [hplan] at hout; cases hout

/-- A definition where the module for another one is to go. -/
def writtenOver : Trial where
  disk := {
    here := []
    tree := ⟨[(["src"],.directory),(["src","a"],.directory),
      (["src","a","A.graphql"],.file (Text.encode "query A { a }") false),(["src","b"],.directory),
      (["src","b","useAQuery.ts"],.file (Text.encode "query useAQuery { b }") false),
      (["t"],.directory),(["t","query.j2"],.file (Text.encode "// X") false)]⟩ }
  options := { HookOptions.standard with
    pattern := "src/**/*.*", namePrefix := "../b/use", templates := some "t" }
  files := [⟨.here,["src","a","A.graphql"]⟩,⟨.here,["src","b","useAQuery.ts"]⟩]
  directories := [⟨.here,["src","hooks"]⟩]

def leftLink : Trial where
  disk := {
    here := []
    tree := ⟨[(["d"],.directory),
      (["d","P.graphql"],.file (Text.encode "fragment P on T { p }") false),(["d","d"],.directory),
      (["d","d","Q.graphql"],.file (Text.encode "query Q { q }") false),(["d","d","d"],.directory),
      (["d","d","d","d"],.link "../../../q/r/s/t"),(["q"],.directory),
      (["q","P.graphql"],.file (Text.encode "query P { p }") false),(["q","d"],.directory),
      (["q","d","Q.graphql"],.file (Text.encode "query Q { q }") false),(["q","r"],.directory),
      (["q","r","s"],.directory),(["q","r","s","t"],.directory),(["t"],.directory),
      (["t","query.j2"],.file (Text.encode "// X") false)]⟩ }
  options := { HookOptions.standard with
    pattern := "d/d/d/d/../../../**/*.graphql", destination := "d/d", templates := some "t" }
  files := [⟨.here,["d","d","d","d","..","..","..","P.graphql"]⟩,
    ⟨.here,["d","d","d","d","..","..","..","d","Q.graphql"]⟩]
  directories := [⟨.here,["d","d","d"]⟩,⟨.here,["d","d","d","d"]⟩]

theorem writtenOver_leavesOut : LeavesOut writtenOver.options writtenOver.disk :=
  leavesOut_of_standing (Trial.isSound_of_checks (by decide +kernel)) (oneByOne 0 1)
    ⟨.here,["src","b","useAQuery.ts"]⟩ (by simp [writtenOver]) (by decide +kernel)

theorem leftLink_leavesOut : LeavesOut leftLink.options leftLink.disk :=
  leavesOut_of_standing (Trial.isSound_of_checks (by decide +kernel)) (oneByOne 0 1)
    ⟨.here,["d","d","d","d","..","..","..","P.graphql"]⟩ (by simp [leftLink]) (by decide +kernel)

/-- A report need not go by the texts from before the run: something may be written over one of
them, or the way to it may be gone. -/
theorem reports_leave_out :
    (LinkFree writtenOver.disk.tree ∧ LeavesOut writtenOver.options writtenOver.disk) ∧
    '/' ∉ leftLink.options.namePrefix.toList ∧ LeavesOut leftLink.options leftLink.disk :=
  ⟨⟨(isFileTree_of_formsTree (by decide +kernel)).linkFree,writtenOver_leavesOut⟩,by decide +kernel,
    leftLink_leavesOut⟩

end OperationHooks.Run
