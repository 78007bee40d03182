import OperationHooks.Proofs.Effect
import OperationHooks.Proofs.Hook
import OperationHooks.Proofs.Index.Registration
import OperationHooks.Run.Task
/-!
The steps of one task. What becomes of a definition file is decided by the file alone, before any
template is looked at; the steps that follow carry it out.
-/
set_option autoImplicit false

namespace OperationHooks

namespace Hook.Settings
open Effect Disk

variable {s : Settings} {d : Descriptor} {disk disk' : Disk} {m : Module} {fault : Fault}

def Rendering (s : Settings) (disk : Disk) (d : Descriptor) (text : String) : Prop :=
  ∃ content, s.render disk (Variant.select? d.kind d.hasVariables) d =
    .ok ⟨s.outputPath d,content⟩ ∧
    s.formatting disk content = .ok text

theorem draft_unshaped (s : Settings) (disk : Disk) (d : Descriptor) :
    s.draft disk none d = .error (.unsupported d.sourcePath d.kind d.name) := rfl

theorem draft_shaped {variant : Variant} {name : String} (hn : d.properName? = some name)
    (h : s.draft disk (some variant) d = .error fault) :
    ∃ cause, fault = .template variant.template d.sourcePath cause := by
  unfold draft at h
  simp only [hn] at h
  split at h
  · exact ⟨_,(Except.error.inj h).symm⟩
  · cases h

/-- What comes of a definition, and the disk that this leaves. -/
inductive Emission (s : Settings) (variant : Option Variant) (d : Descriptor) (disk : Disk) :
    Except Fault Module → Disk → Prop where
  | undrafted (fault : Fault) : s.draft disk variant d = .error fault →
      Emission s variant d disk (.error fault) disk
  | unformatted (m : Module) (cause : Format.Fault) : s.render disk variant d = .ok m →
      s.formatting disk m.content = .error cause →
      Emission s variant d disk (.error (.format cause)) disk
  | halved (draft : Draft) (text : Text.Broken) (cause : Format.Fault) :
      s.draft disk variant d = .ok draft → draft.content.toText = .error text →
      s.formattingBroken disk text = .error cause →
      Emission s variant d disk (.error (.format cause)) disk
  | unsaved (draft : Draft) (text : String) (fault : Fault) (disk' : Disk) :
      s.draft disk variant d = .ok draft → run (save draft.path text) disk = (.error fault,disk') →
      Emission s variant d disk (.error fault) disk'
  | emptied (draft : Draft) (text : Text.Broken) (e : Text.EncodeError) (disk' : Disk) :
      s.draft disk variant d = .ok draft → draft.content.toText = .error text →
      s.formattingBroken disk text = .ok e → run (save draft.path "") disk = (.ok (),disk') →
      Emission s variant d disk (.error (.format (.unencodable e))) disk'
  | saved (m : Module) (text : String) (disk' : Disk) : s.render disk variant d = .ok m →
      s.formatting disk m.content = .ok text → run (save m.path text) disk = (.ok (),disk') →
      Emission s variant d disk (.ok m) disk'

theorem emission_of_emit {variant : Option Variant} {r : Except Fault Module}
    (h : run (s.emit variant d) disk = (r,disk')) : s.Emission variant d disk r disk' := by
  unfold emit at h
  rw [run_bind,run_get] at h
  dsimp only at h
  cases hd : s.draft disk variant d with
  | error fault =>
    rw [hd] at h
    obtain ⟨rfl,rfl⟩ := Prod.mk.inj h
    exact .undrafted fault hd
  | ok draft =>
    simp only [hd] at h
    cases ht : draft.content.toText with
    | error text =>
      simp only [ht,writeBroken,run_bind,run_get] at h
      cases hf : s.formattingBroken disk text with
      | error cause =>
        rw [hf] at h
        obtain ⟨rfl,rfl⟩ := Prod.mk.inj h
        exact .halved draft text cause hd ht hf
      | ok e =>
        simp only [hf,run_bind] at h
        cases hs : run (save draft.path "") disk with
        | mk result disk₁ =>
          rw [hs] at h
          cases result <;> obtain ⟨rfl,rfl⟩ := Prod.mk.inj h
          · exact .unsaved draft "" _ _ hd hs
          · exact .emptied draft text e _ hd ht hf hs
    | ok content =>
      have hr : s.render disk variant d = .ok ⟨draft.path,content⟩ :=
        render_eq_ok.2 (hd.trans (by rw [← Text.Wide.toText_eq_ok.1 ht]))
      simp only [ht,write,run_bind,run_get] at h
      cases hf : s.formatting disk content with
      | error cause =>
        rw [hf] at h
        obtain ⟨rfl,rfl⟩ := Prod.mk.inj h
        exact .unformatted _ cause hr hf
      | ok text =>
        simp only [hf] at h
        cases hs : run (save draft.path text) disk with
        | mk result disk₁ =>
          rw [hs] at h
          cases result <;> obtain ⟨rfl,rfl⟩ := Prod.mk.inj h
          · exact .unsaved draft text _ _ hd hs
          · exact .saved ⟨draft.path,content⟩ text _ hr hf hs

theorem render_of_emit {variant : Option Variant}
    (h : run (s.emit variant d) disk = (.ok m,disk')) :
    s.render disk variant d = .ok m ∧ ∃ text, s.formatting disk m.content = .ok text ∧
      run (save m.path text) disk = (.ok (),disk') := by
  cases emission_of_emit h with
  | saved m text disk' hr hf hs => exact ⟨hr,text,hf,hs⟩

theorem emit_of_render {variant : Option Variant} {text : String}
    (hr : s.render disk variant d = .ok m)
    (hf : s.formatting disk m.content = .ok text)
    (hs : run (save m.path text) disk = (.ok (),disk')) :
    run (s.emit variant d) disk = (.ok m,disk') := by
  have htext : (Text.Wide.ofString m.content).toText = .ok m.content := Text.Wide.toText_eq_ok.2 rfl
  unfold emit write
  simp only [run_bind,run_get,render_eq_ok.1 hr,htext,hf,hs,run_pure]

theorem shaped_of_emit {variant : Option Variant}
    (h : run (s.emit variant d) disk = (.ok m,disk')) :
    variant.isSome = true := (path_of_render (render_of_emit h).1).2.1

theorem emit_ok (h : run (s.emit (Variant.select? d.kind d.hasVariables) d) disk = (.ok m,disk')) :
    m.path = s.outputPath d ∧ ∃ text, s.Rendering disk d text ∧
      run (save (s.outputPath d) text) disk = (.ok (),disk') := by
  obtain ⟨hr,text,hf,hs⟩ := render_of_emit h
  have hpath := (path_of_render hr).1
  exact ⟨hpath,text,⟨m.content,by rw [hr,← hpath],hf⟩,hpath ▸ hs⟩

end Hook.Settings

namespace Run
open Effect Disk Hook

/-- An entry of the report, a module, or a fault that ends the run. -/
inductive Plan where
  | report (entry : Entry)
  | make (d : Descriptor)
  | fail

def Plan.entry (s : Setup) : Plan → Option Entry
  | .report entry => some entry
  | .make d => some (.generated (s.hook.outputPath d))
  | .fail => none

/-- What a task goes on to when it has read its file. -/
def opened (s : Setup) (disk : Disk) (path : Path) : Stage :=
  match Descriptor.ofFile s.policy disk path with
  | .error fault => (Stage.ofFault path fault (.ofDisk disk)).1
  | .ok d => (Stage.ofDescriptor s path d (.ofDisk disk)).1

def unsupported (path : Path) (d : Descriptor) : Entry :=
  .error path (Fault.unsupported d.sourcePath d.kind d.name).message unsupportedType

def plan (s : Setup) (disk : Disk) (path : Path) : Plan :=
  match opened s disk path with
  | .reporting entry => .report entry
  | .emitting d =>
    match Variant.select? d.kind d.hasVariables with
    | some _ => .make d
    | none => .report (unsupported path d)
  | _ => .fail

structure Quiet (w w' : World) : Prop where
  disk : w'.disk = w.disk
  indexes : w'.indexes = w.indexes
  report : w'.report = w.report

theorem ofFault_eq (path : Path) (fault : Fault) (disk : Disk) (w : World) :
    (Stage.ofFault path fault w).1 = (Stage.ofFault path fault (.ofDisk disk)).1 ∧
      Quiet w (Stage.ofFault path fault w).2 := by
  cases fault <;> exact ⟨rfl,rfl,rfl,rfl⟩

theorem ofDescriptor_eq (s : Setup) (path : Path) (d : Descriptor) (disk : Disk) (w : World) :
    (Stage.ofDescriptor s path d w).1 = (Stage.ofDescriptor s path d (.ofDisk disk)).1 ∧
      Quiet w (Stage.ofDescriptor s path d w).2 := by
  unfold Stage.ofDescriptor
  split
  · exact ⟨rfl,rfl,rfl,rfl⟩
  · split <;> exact ⟨rfl,rfl,rfl,rfl⟩

section Opened

variable {s : Setup} {disk disk' : Disk} {path : Path} {d : Descriptor}

theorem emitting_of_opened (h : opened s disk path = .emitting d) :
    Descriptor.ofFile s.policy disk path = .ok d ∧ d.kind.isClassifiable = true ∧
      s.hook.nameFault? d = none := by
  unfold opened at h
  split at h
  · unfold Stage.ofFault at h
    split at h <;> cases h
  · rename_i d' hd
    unfold Stage.ofDescriptor at h
    split at h
    · cases h
    · rename_i hk
      split at h
      · cases h
      · rename_i hn
        obtain rfl := Stage.emitting.inj h
        exact ⟨hd,by simpa using hk,hn⟩

theorem opened_of_ofFile
    (h : Descriptor.ofFile s.policy disk' path = Descriptor.ofFile s.policy disk path) :
    opened s disk' path = opened s disk path := by
  unfold opened
  rw [h]
  cases Descriptor.ofFile s.policy disk path with
  | error fault => exact (ofFault_eq path fault disk _).1
  | ok d => exact (ofDescriptor_eq s path d disk _).1

/-- A file that was read is reported, or a module is made for it, or the task fails. -/
theorem opened_cases (s : Setup) (disk : Disk) (path : Path) :
    (∃ entry, opened s disk path = .reporting entry) ∨ (∃ d, opened s disk path = .emitting d) ∨
      ∃ fault, opened s disk path = .failed fault := by
  unfold opened
  cases Descriptor.ofFile s.policy disk path with
  | error fault => cases fault <;> first | exact .inl ⟨_,rfl⟩ | exact .inr (.inr ⟨_,rfl⟩)
  | ok d =>
    dsimp only
    unfold Stage.ofDescriptor
    split
    · exact .inl ⟨_,rfl⟩
    · split
      · exact .inl ⟨_,rfl⟩
      · exact .inr (.inl ⟨_,rfl⟩)

theorem plan_of_emitting (h : opened s disk path = .emitting d) : plan s disk path =
    if (Variant.select? d.kind d.hasVariables).isSome then .make d else
      .report (unsupported path d) := by
  unfold plan
  rw [h]
  dsimp only
  cases Variant.select? d.kind d.hasVariables <;> rfl

theorem plan_make (h : plan s disk path = .make d) : opened s disk path = .emitting d ∧
    (Variant.select? d.kind d.hasVariables).isSome := by
  unfold plan at h
  cases ho : opened s disk path with
  | emitting d' =>
    simp only [ho] at h
    cases hv : Variant.select? d'.kind d'.hasVariables with
    | none => rw [hv] at h; cases h
    | some variant =>
      rw [hv] at h
      obtain rfl := Plan.make.inj h
      exact ⟨rfl,by rw [hv]; rfl⟩
  | _ => rw [ho] at h; cases h

theorem properName_of_nameFault (h : s.hook.nameFault? d = none) :
    ∃ name, d.properName? = some name := by
  unfold Settings.nameFault? at h
  split at h
  · cases h
  · exact ⟨_,‹_›⟩

theorem path_of_report {entry : Entry} (h : plan s disk path = .report entry) :
    (∃ reason, entry = .skipped path reason) ∨ ∃ reason type, entry = .error path reason type := by
  unfold plan at h
  split at h
  · rename_i he
    obtain rfl := Plan.report.inj h
    unfold opened at he
    split at he
    · unfold Stage.ofFault at he
      split at he
      · exact .inr ⟨_,_,(Stage.reporting.inj he).symm⟩
      · exact .inr ⟨_,_,(Stage.reporting.inj he).symm⟩
      · cases he
    · unfold Stage.ofDescriptor at he
      split at he
      · exact .inl ⟨_,(Stage.reporting.inj he).symm⟩
      · split at he
        · exact .inl ⟨_,(Stage.reporting.inj he).symm⟩
        · cases he
  · split at h
    · cases h
    · obtain rfl := Plan.report.inj h
      exact .inr ⟨_,_,rfl⟩
  · cases h

/-- Reading goes by the file alone. -/
theorem opened_congr (h : ∀ bytes, disk'.read path = .ok bytes ↔ disk.read path = .ok bytes)
    (hread : ∃ bytes, disk.read path = .ok bytes) : opened s disk' path = opened s disk path := by
  obtain ⟨bytes,hb⟩ := hread
  refine opened_of_ofFile ?_
  unfold Descriptor.ofFile
  rw [hb,(h bytes).2 hb]

theorem opened_of_unread {fault : Disk.PathFault} (h : disk.read path = .error fault) :
    ∃ fault, opened s disk path = .failed fault := by
  unfold opened Descriptor.ofFile
  rw [h]
  cases fault <;> exact ⟨_,rfl⟩

end Opened

inductive Advances (s : Setup) (path : Path) (w : World) : Stage → Stage → World → Prop where
  | read (w' : World) : Quiet w w' → Advances s path w .reading (opened s w.disk path) w'
  | emit (d : Descriptor) (m : Hook.Module) (w' : World) :
      run (s.hook.emit (Variant.select? d.kind d.hasVariables) d) w.disk = (.ok m,w'.disk) →
      w'.indexes = w.indexes → w'.report = w.report →
      Advances s path w (.emitting d) (.registering m .waiting) w'
  | unsupported (d : Descriptor) (w' : World) : Variant.select? d.kind d.hasVariables = none →
      Quiet w w' → Advances s path w (.emitting d) (.reporting (unsupported path d)) w'
  | unemitted (d : Descriptor) (fault : Fault) (w' : World) :
      (Variant.select? d.kind d.hasVariables).isSome →
      run (s.hook.emit (Variant.select? d.kind d.hasVariables) d) w.disk = (.error fault,w'.disk) →
      Advances s path w (.emitting d) (.failed fault) w'
  | register (m : Hook.Module) (stage stage' : Index.Stage) (inner : Index.World) :
      Index.Moves s.index m.path.parent m.baseName w.toWorld stage stage' inner →
      Advances s path w (.registering m stage) (.registering m stage') { w with toWorld := inner }
  | registered (m : Hook.Module) :
      Advances s path w (.registering m (.ended none)) (.reporting (.generated m.path)) w
  | unregistered (m : Hook.Module) (fault : Fault) :
      Advances s path w (.registering m (.ended (some fault))) (.failed fault) w
  | report (entry : Entry) :
      Advances s path w (.reporting entry) .finished { w with report := entry.add w.report }

section Advances

variable {s : Setup} {path : Path} {w w' : World} {stage stage' : Stage}

theorem ofFault_save {p : Path} {text : String} {disk disk' : Disk} {fault : Fault}
    (h : run (save p text) disk = (.error fault,disk')) (w : World) :
    (Stage.ofFault path fault w).1 = .failed fault := by
  unfold save at h
  rw [run_about] at h
  cases hr : (run (do makeDirectories p.parent; write p (Text.encode text)) disk).1 with
  | ok _ => rw [hr] at h; cases (Prod.mk.inj h).1
  | error cause =>
    rw [hr] at h
    obtain rfl := Except.error.inj (Prod.mk.inj h).1
    cases cause <;> rfl

theorem unsupported_of_emit {variant : Option Variant} {d : Descriptor}
    {disk disk' : Disk} {fault : Fault}
    (hn : s.hook.nameFault? d = none)
    (h : run (s.hook.emit variant d) disk = (.error fault,disk')) :
    variant = none ∧ fault = .unsupported d.sourcePath d.kind d.name ∧ disk' = disk ∨
      variant.isSome ∧ ∀ w, (Stage.ofFault path fault w).1 = .failed fault := by
  obtain ⟨name,hname⟩ := properName_of_nameFault hn
  cases Settings.emission_of_emit h with
  | undrafted fault hd =>
    cases variant with
    | none =>
      rw [Settings.draft_unshaped] at hd
      exact .inl ⟨rfl,(Except.error.inj hd).symm,rfl⟩
    | some variant =>
      obtain ⟨cause,rfl⟩ := Settings.draft_shaped hname hd
      exact .inr ⟨rfl,fun _ => rfl⟩
  | unformatted m cause hr hf => exact .inr ⟨(Settings.path_of_render hr).2.1,fun _ => rfl⟩
  | halved draft text cause hd ht hf => exact .inr ⟨(Settings.path_of_draft hd).2.1,fun _ => rfl⟩
  | unsaved draft text fault disk' hd hs =>
    exact .inr ⟨(Settings.path_of_draft hd).2.1,ofFault_save hs⟩
  | emptied draft text e disk' hd ht hf hs =>
    exact .inr ⟨(Settings.path_of_draft hd).2.1,fun _ => rfl⟩

theorem advances_of_advance (hn : ∀ d, stage = .emitting d → s.hook.nameFault? d = none)
    (h : stage.advance s path w = some (stage',w')) : Advances s path w stage stage' w' := by
  unfold Stage.advance at h
  cases stage with
  | reading =>
    dsimp only at h
    have hopen : Advances s path w .reading (opened s w.disk path) w' := by
      refine .read _ ?_
      split at h <;> obtain ⟨-,rfl⟩ := Prod.mk.inj (Option.some.inj h)
      · exact (ofFault_eq path _ w.disk w).2
      · exact (ofDescriptor_eq s path _ w.disk w).2
    have hstage : opened s w.disk path = stage' := by
      unfold opened
      cases hf : Descriptor.ofFile s.policy w.disk path with
      | error fault =>
        rw [hf] at h
        obtain ⟨rfl,-⟩ := Prod.mk.inj (Option.some.inj h)
        exact (ofFault_eq path _ w.disk w).1.symm
      | ok d =>
        rw [hf] at h
        obtain ⟨rfl,-⟩ := Prod.mk.inj (Option.some.inj h)
        exact (ofDescriptor_eq s path _ w.disk w).1.symm
    rw [← hstage]; exact hopen
  | emitting d =>
    dsimp only at h
    have hperform : w.perform (s.hook.emit (Variant.select? d.kind d.hasVariables) d) =
        ((run (s.hook.emit (Variant.select? d.kind d.hasVariables) d) w.disk).1,
          { w with disk :=
            (run (s.hook.emit (Variant.select? d.kind d.hasVariables) d) w.disk).2 }) := rfl
    rw [hperform] at h
    cases hr : run (s.hook.emit (Variant.select? d.kind d.hasVariables) d) w.disk with
    | mk r disk' =>
      rw [hr] at h
      cases r with
      | ok m =>
        obtain ⟨rfl,rfl⟩ := Prod.mk.inj (Option.some.inj h)
        exact .emit d m _ hr rfl rfl
      | error fault =>
        dsimp only at h
        have hstage : (Stage.ofFault path fault { w with disk := disk' }).1 = stage' :=
          congrArg Prod.fst (Option.some.inj h)
        have hw : (Stage.ofFault path fault { w with disk := disk' }).2 = w' :=
          congrArg Prod.snd (Option.some.inj h)
        rcases unsupported_of_emit (hn d rfl) hr with ⟨hv,rfl,rfl⟩ | ⟨hv,hf⟩
        · rw [← hstage,← hw]
          exact .unsupported d _ hv ⟨rfl,rfl,rfl⟩
        · rw [← hstage,hf]
          have hdisk : w'.disk = disk' := by
            rw [← hw]; exact (ofFault_eq path fault disk' _).2.disk
          exact .unemitted d fault _ hv (hdisk ▸ hr)
  | registering m stage =>
    cases stage with
    | ended fault =>
      cases fault with
      | none => obtain ⟨rfl,rfl⟩ := Prod.mk.inj (Option.some.inj h); exact .registered m
      | some fault =>
        obtain ⟨rfl,rfl⟩ := Prod.mk.inj (Option.some.inj h); exact .unregistered m fault
    | _ =>
      obtain ⟨⟨stage₁,inner⟩,hi,he⟩ := Option.map_eq_some_iff.1 h
      obtain ⟨rfl,rfl⟩ := Prod.mk.inj he
      exact .register m _ _ _ (Index.moves_of_advance hi)
  | reporting entry =>
    obtain ⟨rfl,rfl⟩ := Prod.mk.inj (Option.some.inj h)
    exact .report entry
  | finished => cases h
  | failed fault => cases h

/-- A task stands still only at its end, or while its registration does. -/
theorem advance_eq_none (h : stage.advance s path w = none) :
    stage = .finished ∨ (∃ fault, stage = .failed fault) ∨ ∃ m stage₁, stage =
      .registering m stage₁ ∧
      (∀ fault, stage₁ ≠ .ended fault) ∧
        stage₁.advance s.index m.path.parent m.baseName w.toWorld = none := by
  unfold Stage.advance at h
  cases stage with
  | reading => dsimp only at h; split at h <;> cases h
  | emitting d =>
    dsimp only at h
    split at h <;> cases h
  | registering m stage =>
    cases stage with
    | ended fault => cases fault <;> cases h
    | _ => exact .inr (.inr ⟨m,_,rfl,by simp,Option.map_eq_none_iff.1 h⟩)
  | reporting entry => cases h
  | finished => exact .inl rfl
  | failed fault => exact .inr (.inl ⟨fault,rfl⟩)

end Advances

end Run

end OperationHooks
