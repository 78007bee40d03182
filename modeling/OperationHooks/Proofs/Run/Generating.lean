import OperationHooks.Proofs.Glob.Shape
import OperationHooks.Proofs.Hook.Selection
import OperationHooks.Proofs.Run.Accounting
import OperationHooks.Proofs.Run.Registering
/-!
How the modules of a run come about. A task reads a text from its file, and at a later step of its
own it makes the hook for the document in it. Nothing else is listed in a report.
-/
set_option autoImplicit false

namespace OperationHooks.Run
open Effect Disk

def Reads (s : Setup) (p : Progress) (steps : List Nat) (i : Nat) (path : Path)
    (source : String) : Prop :=
  ∃ before, before ++ [i] <+: steps ∧ (p.follow s before).tasks[i]? = some ⟨path,.reading⟩ ∧
    HasSource (p.follow s before).world.disk path source

/-- After some steps the next one of a task makes a module. -/
def Generates (s : Setup) (p : Progress) (steps : List Nat) (i : Nat) (path : Path)
    (m : Hook.Module) : Prop :=
  ∃ d, (p.follow s steps).tasks[i]? = some ⟨path,.emitting d⟩ ∧
    (p.follow s (steps ++ [i])).tasks[i]? = some ⟨path,.registering m .waiting⟩

def HasMade (s : Setup) (p : Progress) (steps : List Nat) (q : Path) : Prop :=
  ∃ before i path m, before ++ [i] <+: steps ∧ Generates s p before i path m ∧ q = m.path

structure IsHook (s : Setup) (disk : Disk) (path : Path) (document : GraphQL.Document) (v : Variant)
    (m : Hook.Module) : Prop where
  shape : Variant.select? (Descriptor.ofDocument s.policy path document).kind
    (Descriptor.ofDocument s.policy path document).hasVariables = some v
  rendered : s.hook.render disk (some v) (.ofDocument s.policy path document) = .ok m

section Advances

variable {s : Setup} {path : Path} {w w' : World} {stage stage' : Stage} {p : Progress} {i j : Nat}

theorem Advances.of_emitting {d : Descriptor} (h : Advances s path w stage stage' w')
    (he : stage' = .emitting d) :
    stage = .reading ∧ opened s w.disk path = .emitting d := by
  cases h with
  | read w' hq => exact ⟨rfl,he⟩
  | _ => cases he

theorem Advances.of_registering {m : Hook.Module} {st : Index.Stage}
    (h : Advances s path w stage stage' w')
    (he : stage' = .registering m st) :
    (∃ d, stage = .emitting d ∧ st = .waiting ∧
      s.hook.render w.disk (Variant.select? d.kind d.hasVariables) d = .ok m) ∨
    ∃ st', stage = .registering m st' := by
  cases h with
  | read w' hq =>
    rcases opened_cases s w.disk path with ⟨entry,ho⟩ | ⟨d,ho⟩ | ⟨fault,ho⟩ <;>
      cases ho.symm.trans he
  | emit d m w' hr hindexes hreport =>
    obtain ⟨rfl,rfl⟩ := Stage.registering.inj he
    exact .inl ⟨d,rfl,rfl,(Hook.Settings.render_of_emit hr).1⟩
  | register m st₁ st₂ inner hm =>
    obtain ⟨rfl,rfl⟩ := Stage.registering.inj he
    exact .inr ⟨st₁,rfl⟩
  | _ => cases he

theorem Advances.of_generated {q : Path} (h : Advances s path w stage stage' w')
    (he : stage' = .reporting (.generated q)) : ∃ m st, stage = .registering m st ∧ q = m.path := by
  cases h with
  | read w' hq =>
    have hplan : plan s w.disk path = .report (.generated q) := by rw [plan,he]
    rcases path_of_report hplan with ⟨reason,hentry⟩ | ⟨reason,type,hentry⟩ <;> cases hentry
  | registered m => cases he; exact ⟨m,_,rfl,rfl⟩
  | _ => cases he

theorem report_of_advance (h : stage.advance s path w = some (stage',w')) :
    w'.report = w.report ∨ ∃ entry, stage = .reporting entry ∧ w'.report = entry.add w.report := by
  unfold Stage.advance at h
  cases stage with
  | reading =>
    dsimp only at h
    split at h <;> obtain ⟨-,rfl⟩ := Prod.mk.inj (Option.some.inj h)
    · exact .inl (ofFault_eq path _ w.disk w).2.report
    · exact .inl (ofDescriptor_eq s path _ w.disk w).2.report
  | emitting d =>
    dsimp only [World.perform,Index.run_perform] at h
    split at h
    · rename_i fault w₁ hperform
      obtain ⟨-,rfl⟩ := Prod.mk.inj hperform
      rw [show w' = _ from (congrArg Prod.snd (Option.some.inj h)).symm]
      exact .inl (ofFault_eq path fault w.disk _).2.report
    · rename_i m w₁ hperform
      obtain ⟨-,rfl⟩ := Prod.mk.inj hperform
      obtain ⟨-,rfl⟩ := Prod.mk.inj (Option.some.inj h)
      exact .inl rfl
  | registering m st =>
    cases st with
    | ended fault =>
      cases fault <;> (obtain ⟨-,rfl⟩ := Prod.mk.inj (Option.some.inj h); exact .inl rfl)
    | _ =>
      obtain ⟨next,-,he⟩ := Option.map_eq_some_iff.1 h
      obtain ⟨-,rfl⟩ := Prod.mk.inj he
      exact .inl rfl
  | reporting entry =>
    obtain ⟨-,rfl⟩ := Prod.mk.inj (Option.some.inj h)
    exact .inr ⟨entry,rfl,rfl⟩
  | finished => cases h
  | failed fault => cases h

theorem task_of_step {t : Task} (h : (p.step s i).tasks[j]? = some t) : p.tasks[j]? = some t ∨
    j = i ∧ ∃ stage, p.tasks[i]? = some ⟨t.path,stage⟩ ∧
      stage.advance s t.path p.world = some (t.stage,(p.step s i).world) := by
  rcases step_cases s p i with ⟨hs,-⟩ | ⟨t₀,stage,w,hi,ha,hs⟩ <;> rw [hs] at h ⊢
  · exact .inl h
  · rcases getElem?_set_cases h with ⟨rfl,rfl⟩ | ⟨-,hj⟩
    · exact .inr ⟨rfl,t₀.stage,hi,ha⟩
    · exact .inl hj

end Advances

/-- Every task has been led where it is by earlier steps of its own, and so has the report. -/
structure Traceable (s : Setup) (p : Progress) (steps : List Nat) : Prop where
  emitting : ∀ i path d, (p.follow s steps).tasks[i]? = some ⟨path,.emitting d⟩ → ∃ before,
    before ++ [i] <+: steps ∧ (p.follow s before).tasks[i]? = some ⟨path,.reading⟩ ∧
      opened s (p.follow s before).world.disk path = .emitting d
  registering : ∀ (i : Nat) path m st, (p.follow s steps).tasks[i]? =
    some ⟨path,.registering m st⟩ →
    HasMade s p steps m.path
  reporting : ∀ (i : Nat) path q, (p.follow s steps).tasks[i]? =
    some ⟨path,.reporting (.generated q)⟩ →
    HasMade s p steps q
  reported : ∀ q ∈ (p.follow s steps).world.report.generated, q ∈ p.world.report.generated ∨
    ∃ q', HasMade s p steps q' ∧ q = q'.text

section Traceable

variable {s : Setup} {p : Progress} {steps : List Nat} {files : List Path} {w : World}
  {i j : Nat} {path q : Path}
variable {m : Hook.Module} {d : Descriptor} {disk : Disk}

theorem HasMade.later (h : HasMade s p steps q) (i : Nat) : HasMade s p (steps ++ [i]) q := by
  obtain ⟨before,j,path,m,hb,hm⟩ := h
  exact ⟨before,j,path,m,hb.trans (List.prefix_append steps [i]),hm⟩

namespace Traceable

theorem start (s : Setup) (files : List Path) (w : World) : Traceable s (.start files w) [] := by
  have hreading : ∀ (i : Nat) t, (Progress.start files w).tasks[i]? = some t →
      t.stage = .reading := by
    intro i t ht
    obtain ⟨path,-,rfl⟩ := List.mem_map.1 (List.mem_of_getElem? ht)
    rfl
  refine ⟨fun i path d h => ?_,fun i path m st h => ?_,fun i path q h => ?_,fun q h => .inl h⟩ <;>
    cases hreading i _ h

/-- After one more step a task is where it was, or the step was its own. -/
theorem came (h : Traceable s p steps) {t : Task}
    (hj : (p.follow s (steps ++ [i])).tasks[j]? = some t) :
    (p.follow s steps).tasks[j]? = some t ∨ j = i ∧ ∃ stage w, (p.follow s steps).tasks[i]? =
      some ⟨t.path,stage⟩ ∧
      Advances s t.path (p.follow s steps).world stage t.stage w := by
  rw [follow_concat] at hj
  refine (task_of_step hj).imp_right fun ⟨he,stage,hi,ha⟩ =>
    ⟨he,stage,_,hi,advances_of_advance (fun d hd => ?_) ha⟩
  -- A module is about to be made only where nothing was found against it.
  obtain ⟨before,-,-,ho⟩ := h.emitting i t.path d (hd ▸ hi)
  exact (emitting_of_opened ho).2.2

theorem reported_step (h : Traceable s p steps) {q : String}
    (hq : q ∈ (p.follow s (steps ++ [i])).world.report.generated) :
    q ∈ p.world.report.generated ∨ ∃ q', HasMade s p (steps ++ [i]) q' ∧ q = q'.text := by
  have hold : q ∈ (p.follow s steps).world.report.generated → q ∈ p.world.report.generated ∨
      ∃ q', HasMade s p (steps ++ [i]) q' ∧ q = q'.text := fun hq =>
    (h.reported q hq).imp_right fun ⟨q',hm,he⟩ => ⟨q',hm.later i,he⟩
  rw [follow_concat] at hq
  rcases step_cases s (p.follow s steps) i with ⟨hs,-⟩
    | ⟨⟨path,stage⟩,stage',w,hi,ha,hs⟩ <;> rw [hs] at hq
  · exact hold hq
  · rcases report_of_advance ha with hr | ⟨entry,rfl,hr⟩ <;> dsimp only at hq <;> rw [hr] at hq
    · exact hold hq
    · cases entry with
      | generated q' =>
        rcases List.mem_append.1 hq with hq | hq
        · exact hold hq
        · exact .inr ⟨q',(h.reporting i path q' hi).later i,List.mem_singleton.1 hq⟩
      | skipped path reason => exact hold hq
      | error path reason type => exact hold hq

theorem step (h : Traceable s p steps) (i : Nat) : Traceable s p (steps ++ [i]) := by
  refine ⟨fun j path d hj => ?_,fun j path m st hj => ?_,fun j path q hj => ?_,
    fun q => h.reported_step⟩
  · rcases h.came hj with hold | ⟨rfl,stage,w,hi,ha⟩
    · obtain ⟨before,hb,hread⟩ := h.emitting j path d hold
      exact ⟨before,hb.trans (List.prefix_append steps [i]),hread⟩
    · obtain ⟨rfl,ho⟩ := ha.of_emitting rfl
      exact ⟨steps,List.prefix_refl _,hi,ho⟩
  · rcases h.came hj with hold | ⟨rfl,stage,w,hi,ha⟩
    · exact (h.registering j path m st hold).later i
    · rcases ha.of_registering rfl with ⟨d,rfl,rfl,-⟩ | ⟨st',rfl⟩
      · exact ⟨steps,j,path,m,List.prefix_refl _,⟨d,hi,hj⟩,rfl⟩
      · exact (h.registering j path m st' hi).later j
  · rcases h.came hj with hold | ⟨rfl,stage,w,hi,ha⟩
    · exact (h.reporting j path q hold).later i
    · obtain ⟨m,st,rfl,rfl⟩ := ha.of_generated rfl
      exact (h.registering j path m st hi).later j

theorem follow (s : Setup) (files : List Path) (w : World) (steps : List Nat) :
    Traceable s (.start files w) steps := by
  induction steps using List.reverseRecOn with
  | nil => exact start s files w
  | append_singleton steps i ih => exact ih.step i

end Traceable

theorem isHook_of_opened (ho : opened s disk path = .emitting d) {disk' : Disk}
    (hr : s.hook.render disk' (Variant.select? d.kind d.hasVariables) d = .ok m) :
    ∃ source document v, HasSource disk path source ∧ GraphQL.parse source = .ok document ∧
      IsHook s disk' path document v m := by
  obtain ⟨v,hv⟩ := Option.isSome_iff_exists.1 (Hook.Settings.path_of_render hr).2.1
  have hplan : plan s disk path = .make d := by rw [plan_of_emitting ho,hv]; rfl
  obtain ⟨source,hsource,hjudged⟩ := make_iff.1 hplan
  cases hjudged with
  | hooked document o hp hfirst hn ht => exact ⟨source,document,v,hsource,hp,hv,hv ▸ hr⟩

theorem isHook_of_generates (h : Generates s (.start files w) steps i path m) :
    ∃ source document v, Reads s (.start files w) steps i path source ∧
      GraphQL.parse source = .ok document ∧
      IsHook s ((Progress.start files w).follow s steps).world.disk path document v m := by
  obtain ⟨d,hd,hm⟩ := h
  have htraceable := Traceable.follow s files w steps
  rcases htraceable.came hm with hold | ⟨-,stage,w',hi,ha⟩
  · cases hd.symm.trans hold
  · obtain rfl : stage = .emitting d := by cases hi.symm.trans hd; rfl
    rcases ha.of_registering rfl with ⟨d',hd',-,hr⟩ | ⟨st,hst⟩
    · obtain rfl := Stage.emitting.inj hd'
      obtain ⟨before,hb,hread,ho⟩ := htraceable.emitting i path d hd
      obtain ⟨source,document,v,hsource,hp,hhook⟩ := isHook_of_opened ho hr
      exact ⟨source,document,v,⟨before,hb,hread,hsource⟩,hp,hhook⟩
    · cases hst

end Traceable

section Runs

variable {g : HookGenerator} {files : List Path} {schedule : Schedule} {w w' : World}
  {r : Report} {q : String}

theorem hasMade_of_report (hfound : g.discover w.disk = .ok files)
    (hfiles : schedule.files.Perm files)
    (h : run (runBy g schedule) w = (.ok r,w')) (hq : q ∈ r.generated) :
    ∃ q', HasMade g.setup (started g schedule.files w) schedule.steps q' ∧ q = q'.text := by
  by_cases hne : files = []
  · subst hne
    rw [report_of_nil hfound h] at hq
    cases hq
  rw [run_runBy_of_discover hfound hne,← hfiles.length_eq] at h
  obtain ⟨w₁,p,paths,inner,hclean,rfl,-,-,-,rfl,rfl⟩ := runOn_ok.1 h
  have hlisted : q ∈ ((Progress.start schedule.files w₁.processing).follow g.setup
      schedule.steps).world.report.generated := (List.mergeSort_perm _ _).mem_iff.1 hq
  rw [← started_of_clean hclean] at hlisted
  have htraceable : Traceable g.setup (started g schedule.files w) schedule.steps := .follow _ _ _ _
  refine (htraceable.reported q hlisted).resolve_left fun hold => ?_
  rw [report_started hclean] at hold
  cases hold

/-- Every module that a run generates is the hook for a document that was read, and if its template
is one of the package it tells what the operation selects. A report lists no other modules. -/
theorem modules_select (hfound : g.discover w.disk = .ok files)
    (hfiles : schedule.files.Perm files) :
    (∀ steps i path m, Generates g.setup (started g schedule.files w) steps i path m →
      ∃ source document v,
      Reads g.setup (started g schedule.files w) steps i path source ∧
      GraphQL.parse source = .ok document ∧
      IsHook g.setup ((started g schedule.files w).follow g.setup steps).world.disk
        path document v m ∧
      (g.setup.hook.FromPackage ((started g schedule.files w).follow g.setup steps).world.disk v →
        v ≠ .queryPlain → ∃ name selection,
          Selecting g.setup.policy document v name m.content selection)) ∧
      ∀ r w', run (runBy g schedule) w = (.ok r,w') → ∀ q ∈ r.generated,
        ∃ q', HasMade g.setup (started g schedule.files w) schedule.steps q' ∧ q = q'.text := by
  refine ⟨fun steps i path m h => ?_,fun r w' h q hq => hasMade_of_report hfound hfiles h hq⟩
  obtain ⟨source,document,v,hreads,hp,hhook⟩ := isHook_of_generates h
  exact ⟨source,document,v,hreads,hp,hhook,Hook.Settings.exists_selecting hhook.rendered⟩

end Runs

def alonePlace : Place := ["src","a","operations","A.graphql"]

def alonePath : Path := .ofString "src/a/operations/A.graphql"

def definitionAlone (source : String) : Disk :=
  (Disk.mk ⟨[(["src"],.directory),(["src","a"],.directory),(["src","a","operations"],.directory)]⟩
    []).putAt
    alonePlace (.file (Text.encode source) false)

theorem edited_alone (source source' : String) :
    Edited alonePlace (definitionAlone source) (definitionAlone source') := by
  have hplace : alonePlace ≠ [] := by decide
  exact ⟨rfl,
    fun q hq => (Tree.get?_put_of_ne hplace _ hq).trans (Tree.get?_put_of_ne hplace _ hq).symm,
    ⟨_,_,Tree.get?_put_self hplace _⟩,⟨_,_,Tree.get?_put_self hplace _⟩⟩

theorem discover_alone (source : String) :
    discover (definitionAlone source) (.ofString ".") "src/**/*.graphql" ["index.ts"] =
      .ok [alonePath] := by
  have hfind :
      Glob.find (definitionAlone "") (.ofString ".") "src/**/*.graphql" = .ok [alonePath] := by
    decide +kernel
  exact discover_shape (edited_alone "" source).sameShape (Path.plain_ofString _)
    (isFileTree_of_formsTree (by decide +kernel)).names
    (discover_of_find hfind (by decide +kernel) (by decide +kernel) (by decide +kernel)
      (by decide +kernel))

def withPolicy (policy : SelectionPolicy) : HookOptions := { HookOptions.standard with policy }

def isSource (disk : Disk) (path : Path) (source : String) : Bool :=
  passes (disk.read path) fun bytes => passes (Text.decode bytes) fun text =>
    String.ofList (Text.plainNewlines text.toList) == source

theorem hasSource_of_isSource {disk : Disk} {path : Path} {source : String}
    (h : isSource disk path source = true) :
    HasSource disk path source := by
  obtain ⟨bytes,hr,h⟩ := exists_of_passes h
  obtain ⟨text,hd,h⟩ := exists_of_passes h
  exact ⟨bytes,text,hr,hd,(eq_of_beq h).symm⟩

/-- A policy, tried on the one file. -/
def alone (policy : SelectionPolicy) (source : String) : Trial where
  disk := definitionAlone source
  options := withPolicy policy
  files := [alonePath]
  directories := [.ofString "src/a/hooks"]

theorem isSound_alone (policy : SelectionPolicy) (source : String) :
    (alone policy source).IsSound := by
  have houtputs : Path.sorted ([alonePath].map fun source => HookOptions.standard.outputPath.getD
      (source.parent / HookOptions.standard.destination).fold) =
        [.ofString "src/a/hooks"] := by decide +kernel
  exact ⟨discover_alone source,houtputs⟩

def makesAlone (t : Trial) (g : HookGenerator) (source : String) : Bool :=
  g.setup.hook.templates.isNone && isSource (t.standing g []).world.disk alonePath source &&
    match (t.standing g [0]).tasks,(t.standing g [0,0]).tasks with
    | [⟨p,.emitting _⟩],[⟨p',.registering m .waiting⟩] => p == alonePath && p' == alonePath &&
        (t.standing g (eachInTurn 1)).world.report.generated == [m.path.text]
    | _,_ => false

/-- A run over the one file, and the module that it generates. -/
structure RunsAlone (policy : SelectionPolicy) (source : String) (g : HookGenerator)
    (r : Report) (w' : World)
    (m : Hook.Module) : Prop where
  options : HookGenerator.ofOptions [] (definitionAlone source) (withPolicy policy) = .ok g
  packaged : g.setup.hook.templates = none
  found : g.discover (definitionAlone source) = .ok [alonePath]
  reported :
    run (runBy g ⟨[alonePath],eachInTurn 1⟩) (.ofDisk (definitionAlone source)) = (.ok r,w')
  listed : m.path.text ∈ r.generated
  read : HasSource (started g [alonePath] (.ofDisk (definitionAlone source))).world.disk
    alonePath source
  generated :
    Generates g.setup (started g [alonePath] (.ofDisk (definitionAlone source))) [0] 0 alonePath m

section Alone

variable {g : HookGenerator} {source : String} {policy : SelectionPolicy}

theorem Trial.Runs.standing_eq {t : Trial} {steps : List Nat} {r : Report} {w' : World}
    (h : t.Runs g steps r w') (hne : t.files ≠ []) (steps' : List Nat) :
    t.standing g steps' = (started g t.files (.ofDisk t.disk)).follow g.setup steps' := by
  have hrun := (run_runBy_of_discover (w := .ofDisk t.disk) h.found hne).symm.trans h.reported
  obtain ⟨w₁,_,_,_,hclean,-⟩ := runOn_ok.1 hrun
  rw [started_of_clean hclean,Trial.standing,Run.standing,← h.directories]
  exact congrArg
    (fun outcome => (Progress.start t.files outcome.2.processing).follow g.setup steps') hclean

theorem exists_runsAlone
    (hpass : passes (HookGenerator.ofOptions [] (definitionAlone source) (withPolicy policy))
    (fun g => (alone policy source).comesThrough g (eachInTurn 1) &&
      makesAlone (alone policy source) g source) =
      true) : ∃ g r w' m, RunsAlone policy source g r w' m := by
  have hne : (alone policy source).files ≠ [] := List.cons_ne_nil _ _
  obtain ⟨g,r,w',hrun,hcheck⟩ := (isSound_alone policy source).exists_runs hne (eachInTurn 1)
    (makesAlone (alone policy source) · source) hpass
  have hlisted := hrun.generated
  simp only [makesAlone,Bool.and_eq_true,Option.isNone_iff_eq_none] at hcheck
  obtain ⟨⟨htemplates,hsource⟩,hmade⟩ := hcheck
  simp only [hrun.standing_eq hne] at hsource hmade hlisted
  split at hmade
  · rename_i p d p' m hbefore hnext
    simp only [Bool.and_eq_true,beq_iff_eq] at hmade
    obtain ⟨⟨rfl,rfl⟩,hreport⟩ := hmade
    rw [hreport] at hlisted
    exact ⟨g,r,w',m,hrun.generator,htemplates,hrun.found,hrun.reported,
      hlisted.mem_iff.2 (List.mem_singleton_self _),hasSource_of_isSource hsource,
      ⟨d,congrArg (·[0]?) hbefore,congrArg (·[0]?) hnext⟩⟩
  · cases hmade

theorem RunsAlone.source_eq {r : Report} {w' : World} {m : Hook.Module} {source' : String}
    (h : RunsAlone policy source g r w' m)
    (hreads : Reads g.setup (started g [alonePath] (.ofDisk (definitionAlone source)))
      [0] 0 alonePath source') :
    source' = source := by
  obtain ⟨before,hb,-,hsource⟩ := hreads
  obtain rfl : before = [] := by simpa using hb.length_le
  exact hsource.unique h.read

end Alone

/-- A mutation that selects a field called like itself behind a fragment and another field with a
label. -/
def matchedSource : String := "mutation A($x: Int) { ...F b: c a }"

def matched : GraphQL.Document where
  first := .operation ⟨.mutation,some Descriptor.nameA,[⟨['x'],rfl⟩],
    [.spread ⟨['F'],rfl⟩,.field (some Descriptor.fieldB) ⟨['c'],rfl⟩ [],
      .field none Descriptor.fieldA []]⟩
  rest := []

set_option maxRecDepth 2000 in
theorem parse_matched : GraphQL.parse matchedSource = .ok matched := by cbv

theorem modules_select_matched : ∃ g r w' m name,
    RunsAlone .matchOperation matchedSource g r w' m ∧
    Selecting .matchOperation matched .mutationWithVariables name m.content "a" := by
  obtain ⟨g,r,w',m,h⟩ : ∃ g r w' m, RunsAlone .matchOperation matchedSource g r w' m :=
    exists_runsAlone (by decide +kernel)
  have hlisted : (Schedule.mk [alonePath] (eachInTurn 1)).files.Perm [alonePath] := .refl _
  obtain ⟨hhooks,-⟩ := modules_select (w := .ofDisk (definitionAlone matchedSource)) h.found hlisted
  obtain ⟨source,document,v,hreads,hparse,hhook,hselecting⟩ := hhooks _ _ _ _ h.generated
  obtain rfl := h.source_eq hreads
  obtain rfl := Except.ok.inj (hparse.symm.trans parse_matched)
  obtain rfl := Option.some.inj hhook.shape
  obtain ⟨name,selection,hs⟩ :=
    hselecting (Hook.Settings.fromPackage_of_none h.packaged _ _) (by decide)
  have hpolicy : g.setup.policy = .matchOperation := by
    obtain ⟨formatting,broken,templates,rfl⟩ := HookGenerator.follows_of_ofOptions h.options
    rfl
  rw [hpolicy] at hs
  obtain rfl : Descriptor.nameA = name := Option.some.inj hs.named
  obtain rfl : selection = "a" := (hs.matching rfl Descriptor.fieldA
    ⟨_,none,[],rfl,by simp⟩ (by decide)).trans (by decide)
  exact ⟨g,r,w',m,Descriptor.nameA,h,hs⟩

def spreadSource : String := "mutation A { ...F }"

def spread : GraphQL.Document where
  first := .operation ⟨.mutation,some Descriptor.nameA,[],[.spread ⟨['F'],rfl⟩]⟩
  rest := []

theorem parse_spread : GraphQL.parse spreadSource = .ok spread := by cbv

/-- The module for an operation that selects a fragment and no field names none. -/
theorem spread_selects_nothing : ∃ g r w' m, RunsAlone .first spreadSource g r w' m ∧
    IsHook g.setup
      ((started g [alonePath] (.ofDisk (definitionAlone spreadSource))).follow
        g.setup [0]).world.disk
      alonePath spread .mutationPlain m ∧
    ∀ selection, Variant.mutationPlain.Fills m.content "A" selection ↔ selection = "" := by
  obtain ⟨g,r,w',m,h⟩ : ∃ g r w' m, RunsAlone .first spreadSource g r w' m :=
    exists_runsAlone (by decide +kernel)
  obtain ⟨source,document,v,hreads,hparse,hhook⟩ := isHook_of_generates h.generated
  obtain rfl := h.source_eq hreads
  obtain rfl := Except.ok.inj (hparse.symm.trans parse_spread)
  obtain rfl := Option.some.inj hhook.shape
  obtain ⟨name,selection,hs⟩ := Hook.Settings.exists_selecting hhook.rendered
    (Hook.Settings.fromPackage_of_none h.packaged _ _) (by decide)
  obtain rfl : Descriptor.nameA = name := Option.some.inj hs.named
  obtain rfl : selection = "" := hs.empty_iff.2 fun field hf => by
    obtain ⟨_,_,_,ho,hm⟩ := hf
    cases ho
    simp at hm
  exact ⟨g,r,w',m,h,hhook,hs.filled⟩

end OperationHooks.Run
