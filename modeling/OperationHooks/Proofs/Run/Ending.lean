import OperationHooks.Command.Call
import OperationHooks.Proofs.Disk.Null
import OperationHooks.Proofs.Run.Registering
/-!
How a run can end. It gives a report, or a fault that the user is told of, or a template cannot be
rendered; any other fault has one of a few causes in the files, the paths or the formatting.
-/
set_option autoImplicit false

namespace OperationHooks.Run
open Effect Disk Index Relation

inductive IsAsked (s : Setup) (files : List Path) : Path → Prop where
  | file (p : Path) : p ∈ files → IsAsked s files p
  | directory (source : Path) : source ∈ files → IsAsked s files (s.hook.outputDirectory source)
  | module (q : Path) : IsModulePath s files q → IsAsked s files q
  | index (q : Path) : IsIndexPath s files q → IsAsked s files q

/-- Faults that the user is told of: a file or directory cannot be worked on, an output directory
holds definitions, or a program does not format. -/
inductive Documented (s : Setup) (files : List Path) : Fault → Prop where
  | access (p : Path) (cause : SystemFault) : IsAsked s files p →
    Documented s files (.fileAccess p cause)
  | definitions (source : Path) : source ∈ files →
      Documented s files (.config (.holdsDefinitions (s.hook.outputDirectory source)))
  | program (cause : Format.Fault) : cause.isOfProgram = true → Documented s files (.format cause)

inductive Unrendered (files : List Path) : Fault → Prop where
  | template (name : String) (path : Path) (cause : Template.Fault) : path ∈ files →
      cause.isOfTemplate = true → Unrendered files (.template name path cause)

/-- Faults that nobody has put into words for the user, with what each of them takes. -/
inductive Stray (s : Setup) (files : List Path) (base : Disk) : Fault → Prop where
  | value (name : String) (path : Path) (cause : Template.Fault) : path ∈ files →
      cause.isOfTemplate = false → Stray s files base (.template name path cause)
  | formatting (d : Disk) (text : String) (cause : Format.Fault) :
      ReflTransGen (Touches s files) base d →
      s.hook.formatting d text = .error cause ∨ s.index.formatting d text = .error cause →
      cause.isOfProgram = false → Stray s files base (.format cause)
  | halved (x : Descriptor) (d : Disk) (draft : Hook.Draft) (text : Text.Broken)
      (cause : Format.Fault) :
      x.sourcePath ∈ files → ReflTransGen (Touches s files) base d →
      s.hook.draft d (Variant.select? x.kind x.hasVariables) x = .ok draft →
      draft.content.toText = .error text →
      s.hook.formattingBroken d text = .error cause ∨
        (∃ e, s.hook.formattingBroken d text = .ok e ∧ cause = .unencodable e) →
      cause.isOfProgram = false → Stray s files base (.format cause)
  | undecodable (p : Path) (d : Disk) (bytes : List UInt8) (cause : Text.DecodeError) : p ∈ files →
      ReflTransGen (Touches s files) base d → d.read p = .ok bytes →
      Text.decode bytes = .error cause →
      Stray s files base (.undecodable cause)
  | null (p : Path) : IsAsked s files p → hasNull p.text = true → Stray s files base .nullCharacter
  | nested (m : Path) (d : Disk) (cause : SystemFault) : IsModulePath s files m →
      ReflTransGen (Touches s files) base d →
      d.isFile (s.index.nestedIndex m.parent) = .error (.system cause) →
      Stray s files base (.system cause)
  | loop (p : Path) (d : Disk) : IsAsked s files p → ReflTransGen (Touches s files) base d →
      d.settle p = none → Stray s files base (.linkLoop p)

def Ends (s : Setup) (files : List Path) (base : Disk) (fault : Fault) : Prop :=
  Documented s files fault ∨ Unrendered files fault ∨ Stray s files base fault

section Ends

variable {s : Setup} {files : List Path} {base disk : Disk} {path p : Path}
  {fault : Fault} {α : Type}
variable {d : Descriptor}

theorem Ends.null (hp : IsAsked s files p) (h : hasNull p.text = true) :
    Ends s files base .nullCharacter := .inr (.inr (.null p hp h))

theorem ends_of_access (hp : IsAsked s files p)
    (h : (∃ cause, fault = .fileAccess p cause) ∨ fault = .nullCharacter ∧ hasNull p.text = true) :
    Ends s files base fault := by
  rcases h with ⟨cause,rfl⟩ | ⟨rfl,hn⟩
  · exact .inl (.access p cause hp)
  · exact .null hp hn

theorem ends_of_save {text : String} {disk' : Disk} (hp : IsAsked s files p)
    (h : run (save p text) disk = (.error fault,disk')) : Ends s files base fault :=
  ends_of_access hp (fault_of_about (nullIn_save p text) h)

theorem ends_of_format {cause : Format.Fault} {text : String}
    (hd : ReflTransGen (Touches s files) base disk)
    (h : s.hook.formatting disk text = .error cause ∨ s.index.formatting disk text = .error cause) :
    Ends s files base (.format cause) := by
  cases hc : cause.isOfProgram with
  | true => exact .inl (.program cause hc)
  | false => exact .inr (.inr (.formatting disk text cause hd h hc))

theorem ends_of_template {name : String} {cause : Template.Fault} (hm : path ∈ files) :
    Ends s files base (.template name path cause) := by
  cases hc : cause.isOfTemplate with
  | true => exact .inr (.inl (.template name path cause hm hc))
  | false => exact .inr (.inr (.value name path cause hm hc))

/-- What reading a file fails for, unless it is only reported. -/
theorem ends_of_opened (hm : path ∈ files) (hd : ReflTransGen (Touches s files) base disk)
    (h : opened s disk path = .failed fault) : Ends s files base fault := by
  unfold opened at h
  cases hf : Descriptor.ofFile s.policy disk path with
  | ok d =>
    rw [hf] at h
    dsimp only at h
    unfold Stage.ofDescriptor at h
    split at h
    · cases h
    · split at h <;> cases h
  | error cause =>
    rw [hf] at h
    unfold Descriptor.ofFile at hf
    cases hr : disk.read path with
    | error refusal =>
      rw [hr] at hf
      obtain rfl := Except.error.inj hf
      refine ends_of_access (.file path hm) ?_
      cases refusal with
      | system cause => exact .inl ⟨cause,(Stage.failed.inj h).symm⟩
      | nullCharacter =>
        refine .inr ⟨(Stage.failed.inj h).symm,?_⟩
        unfold Disk.read at hr
        split at hr
        · obtain rfl := Except.error.inj hr
          exact hasNull_of_walk ‹_›
        all_goals cases hr
    | ok bytes =>
      rw [hr] at hf
      cases ht : Text.decode bytes with
      | error cause' =>
        simp only [mapError_ok,bind,Except.bind,ht,mapError_error] at hf
        obtain rfl := Except.error.inj hf
        obtain rfl := Stage.failed.inj h
        exact .inr (.inr (.undecodable path disk bytes cause' hm hd hr ht))
      | ok text =>
        simp only [mapError_ok,bind,Except.bind,ht] at hf
        unfold Descriptor.ofSource at hf
        split at hf
        · obtain rfl := Except.error.inj hf
          cases h
        · cases hf

theorem ends_of_halved {draft : Hook.Draft} {text : Text.Broken} {cause : Format.Fault}
    (hm : d.sourcePath ∈ files)
    (hd : ReflTransGen (Touches s files) base disk)
    (hdraft : s.hook.draft disk (Variant.select? d.kind d.hasVariables) d = .ok draft)
    (ht : draft.content.toText = .error text)
    (h : s.hook.formattingBroken disk text = .error cause ∨
      ∃ e, s.hook.formattingBroken disk text = .ok e ∧ cause = .unencodable e) :
    Ends s files base (.format cause) := by
  cases hc : cause.isOfProgram with
  | true => exact .inl (.program cause hc)
  | false => exact .inr (.inr (.halved d disk draft text cause hm hd hdraft ht h hc))

theorem ends_of_emit {disk' : Disk} (hm : d.sourcePath ∈ files) (hn : d.IsNamed)
    (hname : s.hook.nameFault? d = none)
    (hv : (Variant.select? d.kind d.hasVariables).isSome = true)
    (hd : ReflTransGen (Touches s files) base disk)
    (h : run (s.hook.emit (Variant.select? d.kind d.hasVariables) d) disk = (.error fault,disk')) :
    Ends s files base fault := by
  obtain ⟨name,hproper⟩ := properName_of_nameFault hname
  obtain ⟨variant,hvariant⟩ := Option.isSome_iff_exists.1 hv
  cases Hook.Settings.emission_of_emit h with
  | undrafted fault hdraft =>
    rw [hvariant] at hdraft
    obtain ⟨cause,rfl⟩ := Hook.Settings.draft_shaped hproper hdraft
    exact ends_of_template hm
  | unformatted m cause hr hf => exact ends_of_format hd (.inl hf)
  | halved draft text cause hdraft ht hf => exact ends_of_halved hm hd hdraft ht (.inl hf)
  | unsaved draft text fault disk' hdraft hs =>
    exact ends_of_save (.module _ ⟨d,hm,hn,(Hook.Settings.path_of_draft hdraft).1⟩) hs
  | emptied draft text e disk' hdraft ht hf hs =>
    exact ends_of_halved hm hd hdraft ht (.inr ⟨e,hf,rfl⟩)

theorem ends_of_formatted {m : Path} {entries : List String} (hm : IsModulePath s files m)
    (hd : ReflTransGen (Touches s files) base disk)
    (h : s.index.formatted disk m.parent entries = .error fault) : Ends s files base fault := by
  rw [formatted_eq] at h
  cases hi : disk.isFile (s.index.nestedIndex m.parent) with
  | error cause =>
    rw [hi] at h
    obtain rfl := Except.error.inj h
    cases cause with
    | system cause => exact .inr (.inr (.nested m disk cause hm hd hi))
    | nullCharacter =>
      unfold isFile at hi
      cases he : disk.entry? (s.index.nestedIndex m.parent) with
      | error cause =>
        rw [he] at hi
        obtain rfl := Except.error.inj hi
        exact absurd he entry?_ne_null
      | ok e => rw [he] at hi; cases hi
  | ok nested =>
    simp only [hi] at h
    cases hf : s.index.formatting disk (textOf nested entries) with
    | error cause =>
      rw [hf] at h
      obtain rfl := Except.error.inj h
      exact ends_of_format hd (.inr hf)
    | ok text => rw [hf] at h; cases h

end Ends

def Stage.fault? : Stage → Option Fault
  | .failed fault => some fault
  | .registering _ (.releasing fault) | .registering _ (.ended fault) => fault
  | _ => none

structure Blamed (s : Setup) (files : List Path) (base : Disk) (p : Progress) : Prop where
  stages : ∀ t ∈ p.tasks, ∀ fault, t.stage.fault? = some fault → Ends s files base fault
  fault : ∀ fault, p.fault = some fault → Ends s files base fault
  noticed : ∀ t ∈ p.tasks, ∀ fault, t.stage = .failed fault → p.fault.isSome = true

section Tasks

variable {s : Setup} {files : List Path} {base : Disk} {path : Path} {w w' : World}
  {stage stage' : Stage}
variable {p : Progress} {i : Nat} {fault : Fault}

theorem ends_of_advances (hm : path ∈ files) (ha : stage.Aims s files)
    (hold : ∀ fault, stage.fault? = some fault → Ends s files base fault)
    (hd : ReflTransGen (Touches s files) base w.disk) (h : Advances s path w stage stage' w')
    (hf : stage'.fault? = some fault) : Ends s files base fault := by
  cases h with
  | read w' hq =>
    rcases opened_cases s w.disk path with ⟨entry,ho⟩ | ⟨d,ho⟩ | ⟨cause,ho⟩ <;> rw [ho] at hf
    · cases hf
    · cases hf
    · obtain rfl := Option.some.inj hf
      exact ends_of_opened hm hd ho
  | emit d m w' hr hindexes hreport => cases hf
  | unsupported d w' hv hq => cases hf
  | unemitted d cause w' hv hr =>
    obtain rfl := Option.some.inj hf
    exact ends_of_emit ha.1 ha.2.1 ha.2.2 hv hd hr
  | register m st st' inner hmoves =>
    cases hmoves with
    | unrendered cause hr =>
      obtain rfl := Option.some.inj hf
      exact ends_of_formatted ha hd hr
    | unstored text cause disk hr =>
      obtain rfl := Option.some.inj hf
      exact ends_of_save (.index _ ⟨m.path,ha,rfl⟩) hr
    | release cause => exact hold fault hf
    | add hb => cases hbatch : s.index.batch <;> rw [hbatch] at hf <;> cases hf
    | _ => cases hf
  | registered m => cases hf
  | unregistered m cause => exact hold fault hf
  | report entry => cases hf

namespace Blamed

theorem start (listed : List Path) (w : World) : Blamed s files base (.start listed w) := by
  refine ⟨fun t ht fault hf => ?_,fun fault hf => (by cases hf),fun t ht fault hf => ?_⟩
  all_goals
    obtain ⟨path,-,rfl⟩ := List.mem_map.1 ht
    cases hf

theorem step (h : Blamed s files base p) (ha : Aimed s files p)
    (hd : ReflTransGen (Touches s files) base p.world.disk) (i : Nat) :
      Blamed s files base (p.step s i) := by
  rcases step_cases s p i with ⟨hs,-⟩ | ⟨t,stage,w,hi,hadvance,hs⟩ <;> rw [hs]
  · exact h
  · have hmem := List.mem_of_getElem? hi
    have haims := ha.aims t hmem
    have hadvances :=
      advances_of_advance (fun d hd => by rw [hd] at haims; exact haims.2.2) hadvance
    have hstage : ∀ fault, stage.fault? = some fault → Ends s files base fault := fun fault =>
      ends_of_advances (ha.paths t hmem) haims (h.stages t hmem) hd hadvances
    refine ⟨fun t' ht' => ?_,fun fault hf => ?_,fun t' ht' fault hf => ?_⟩
    · rcases List.mem_or_eq_of_mem_set ht' with ht' | rfl
      · exact h.stages t' ht'
      · exact hstage
    · cases hfault : p.fault with
      | some fault' =>
        rw [hfault] at hf
        obtain rfl := Option.some.inj hf
        exact h.fault _ hfault
      | none =>
        rw [hfault] at hf
        cases stage with
        | failed fault' =>
          obtain rfl := Option.some.inj hf
          exact hstage _ rfl
        | _ => cases hf
    · rcases List.mem_or_eq_of_mem_set ht' with ht' | rfl
      · have hold := h.noticed t' ht' fault hf
        obtain ⟨fault',hfault⟩ := Option.isSome_iff_exists.1 hold
        rw [hfault]
        rfl
      · obtain rfl : stage = .failed fault := hf
        cases p.fault <;> rfl

theorem follow (h : Blamed s files base p) (ha : Aimed s files p)
    (hd : ReflTransGen (Touches s files) base p.world.disk) (schedule : List Nat) :
    Blamed s files base (p.follow s schedule) := by
  induction schedule generalizing p with
  | nil => exact h
  | cons i rest ih =>
    obtain ⟨hstep,htouches⟩ := ha.step i
    exact ih (h.step ha hd i) hstep (hd.trans htouches.to_reflTransGen)

end Blamed

end Tasks

section Whole

variable {s : Setup} {files directories : List Path} {base : Disk} {w w' : World} {directory : Path}
variable {p : Path} {fault : Fault}

end Whole

/-- The schedule goes on until some task has failed, or none can take another step. -/
def Schedule.IsOver (schedule : Schedule) (g : HookGenerator) (w : World) : Prop :=
  ∀ w₁, run (prepare g schedule.files) (w.begun schedule.files.length) = (.ok (),w₁) →
    ((Progress.start schedule.files w₁).follow g.setup schedule.steps).fault.isSome = true ∨
      ((Progress.start schedule.files w₁).follow g.setup schedule.steps).isSettled g.setup = true

section Runs

variable {g : HookGenerator} {files listed : List Path} {schedule : Schedule}
  {base : Disk} {w w' : World}
variable {fault : Fault} {steps : List Nat}

theorem Schedule.IsComplete.isOver (h : schedule.IsComplete g w) : schedule.IsOver g w :=
  fun w₁ hprepare => .inr (h w₁ hprepare)

end Runs

section Unfilled

variable {g : HookGenerator} {files directories : List Path} {steps : List Nat}
  {w : World} {fault : Fault}

end Unfilled

end OperationHooks.Run
