import OperationHooks.Proofs.Run.Task

set_option autoImplicit false

namespace OperationHooks.Run
open Disk Hook

/-- The text of a definition file, with plain ends of lines. -/
def HasSource (disk : Disk) (path : Path) (source : String) : Prop :=
  ∃ bytes text, disk.read path = .ok bytes ∧ Text.decode bytes = .ok text ∧
    source = String.ofList (Text.plainNewlines text.toList)

inductive Verdict where
  | malformed (cause : GraphQL.SyntaxError)
  | noOperation
  | refused (reason : SkipReason)
  | unsupported (d : Descriptor)
  | hooked (d : Descriptor)

/-- The verdict on a text. Only the first definition counts. -/
inductive Judged (s : Setup) (path : Path) (source : String) : Verdict → Prop where
  | malformed (cause : GraphQL.SyntaxError) : GraphQL.parse source = .error cause →
      Judged s path source (.malformed cause)
  | noOperation (document : GraphQL.Document) : GraphQL.parse source = .ok document →
      (∀ o, document.first ≠ .operation o) → Judged s path source .noOperation
  | refused (document : GraphQL.Document) (o : GraphQL.Operation) (reason : SkipReason) :
      GraphQL.parse source = .ok document → document.first = .operation o →
      s.hook.nameFault? (.ofDocument s.policy path document) = some reason →
      Judged s path source (.refused reason)
  | unsupported (document : GraphQL.Document) (o : GraphQL.Operation) :
      GraphQL.parse source = .ok document → document.first = .operation o →
      s.hook.nameFault? (.ofDocument s.policy path document) = none → o.type = .subscription →
      Judged s path source (.unsupported (.ofDocument s.policy path document))
  | hooked (document : GraphQL.Document) (o : GraphQL.Operation) :
      GraphQL.parse source = .ok document → document.first = .operation o →
      s.hook.nameFault? (.ofDocument s.policy path document) = none →
      o.type = .query ∨ o.type = .mutation →
      Judged s path source (.hooked (.ofDocument s.policy path document))

def Verdict.entry (s : Setup) (path : Path) : Verdict → Entry
  | .malformed cause => .error path (Fault.syntaxError path cause).message syntaxErrorType
  | .noOperation => .skipped path .noOperation
  | .refused reason => .skipped path reason
  | .unsupported d => .error path (Fault.unsupported path d.kind d.name).message unsupportedType
  | .hooked d => .generated (s.hook.outputPath d)

def Verdict.plan (s : Setup) (path : Path) : Verdict → Plan
  | .hooked d => .make d
  | v => .report (v.entry s path)

section Judged

variable {s : Setup} {disk : Disk} {path : Path} {source source' : String}
  {v v' : Verdict} {d : Descriptor}

theorem HasSource.unique (h : HasSource disk path source) (h' : HasSource disk path source') :
    source = source' := by
  obtain ⟨bytes,text,hr,hd,rfl⟩ := h
  obtain ⟨bytes',text',hr',hd',rfl⟩ := h'
  obtain rfl := Except.ok.inj (hr.symm.trans hr')
  obtain rfl := Except.ok.inj (hd.symm.trans hd')
  rfl

theorem Judged.unique (h : Judged s path source v) (h' : Judged s path source v') : v = v' := by
  cases h <;> cases h' <;> simp_all

theorem exists_judged (s : Setup) (path : Path) (source : String) :
    ∃ v, Judged s path source v := by
  cases hp : GraphQL.parse source with
  | error cause => exact ⟨_,.malformed cause hp⟩
  | ok document =>
    by_cases ho : ∃ o, document.first = .operation o
    · obtain ⟨o,ho⟩ := ho
      cases hn : s.hook.nameFault? (.ofDocument s.policy path document) with
      | some reason => exact ⟨_,.refused document o reason hp ho hn⟩
      | none =>
        cases ht : o.type with
        | query => exact ⟨_,.hooked document o hp ho hn (.inl ht)⟩
        | mutation => exact ⟨_,.hooked document o hp ho hn (.inr ht)⟩
        | subscription => exact ⟨_,.unsupported document o hp ho hn ht⟩
    · exact ⟨_,.noOperation document hp fun o he => ho ⟨o,he⟩⟩

theorem kind_ofDocument {document : GraphQL.Document} {o : GraphQL.Operation}
    (h : document.first = .operation o) :
    (Descriptor.ofDocument s.policy path document).kind = .ofOperation o.type := by
  unfold Descriptor.ofDocument
  rw [h]

theorem ofDocument_of_no_operation {document : GraphQL.Document}
    (h : ∀ o, document.first ≠ .operation o) :
    Descriptor.ofDocument s.policy path document = .unclassifiable path := by
  unfold Descriptor.ofDocument
  split
  · exact absurd ‹_› (h _)
  · rfl

theorem ofFile_of_source (h : HasSource disk path source) :
    Descriptor.ofFile s.policy disk path = Descriptor.ofSource s.policy path source := by
  obtain ⟨bytes,text,hr,hd,rfl⟩ := h
  unfold Descriptor.ofFile
  simp only [hr,hd,bind,Except.bind,Effect.mapError_ok]

theorem opened_of_source (h : HasSource disk path source) : opened s disk path =
    match Descriptor.ofSource s.policy path source with
    | .error fault => (Stage.ofFault path fault (.ofDisk disk)).1
    | .ok d => (Stage.ofDescriptor s path d (.ofDisk disk)).1 := by
  rw [← ofFile_of_source h]
  rfl

theorem opened_of_operation {document : GraphQL.Document} {o : GraphQL.Operation}
    (h : HasSource disk path source) (hp : GraphQL.parse source = .ok document)
    (ho : document.first = .operation o) : opened s disk path =
      match s.hook.nameFault? (.ofDocument s.policy path document) with
      | some reason => .reporting (.skipped path reason)
      | none => .emitting (.ofDocument s.policy path document) := by
  have hk : (Descriptor.ofDocument s.policy path document).kind.isClassifiable = true := by
    rw [kind_ofDocument ho]
    cases o.type <;> rfl
  rw [opened_of_source h,Descriptor.ofSource,hp]
  dsimp only
  unfold Stage.ofDescriptor
  rw [hk]
  simp only [Bool.not_true,Bool.false_eq_true,if_false]
  cases s.hook.nameFault? (.ofDocument s.policy path document) <;> rfl

theorem plan_of_judged (h : HasSource disk path source) (hv : Judged s path source v) :
    plan s disk path = v.plan s path := by
  cases hv with
  | malformed cause hp =>
    rw [plan,opened_of_source h,Descriptor.ofSource,hp]
    rfl
  | noOperation document hp ho =>
    rw [plan,opened_of_source h,Descriptor.ofSource,hp]
    dsimp only
    rw [ofDocument_of_no_operation ho]
    rfl
  | refused document o reason hp ho hn =>
    rw [plan,opened_of_operation h hp ho,hn]
    rfl
  | unsupported document o hp ho hn ht =>
    have hk : (Descriptor.ofDocument s.policy path document).kind = _ := kind_ofDocument ho
    have hfile :
        Descriptor.ofFile s.policy disk path = .ok (.ofDocument s.policy path document) := by
      rw [ofFile_of_source h,Descriptor.ofSource,hp]
    have hsource : (Descriptor.ofDocument s.policy path document).sourcePath = path :=
      Descriptor.sourcePath_of_ofFile hfile
    rw [plan,opened_of_operation h hp ho,hn]
    dsimp only
    rw [hk,ht]
    dsimp only [Kind.ofOperation,Variant.select?]
    rw [unsupported,hsource]
    rfl
  | hooked document o hp ho hn ht =>
    have hk : (Descriptor.ofDocument s.policy path document).kind = _ := kind_ofDocument ho
    rw [plan,opened_of_operation h hp ho,hn]
    dsimp only
    rw [hk]
    rcases ht with ht | ht <;> rw [ht] <;>
      cases (Descriptor.ofDocument s.policy path document).hasVariables <;> rfl

theorem plan_cases (s : Setup) (disk : Disk) (path : Path) : plan s disk path = .fail ∨
    ∃ source v, HasSource disk path source ∧ Judged s path source v := by
  cases hr : disk.read path with
  | error fault =>
    obtain ⟨fault,hf⟩ := opened_of_unread (s := s) hr
    exact .inl (by rw [plan,hf])
  | ok bytes =>
    cases hd : Text.decode bytes with
    | error cause =>
      refine .inl ?_
      have hfile : Descriptor.ofFile s.policy disk path = .error (.undecodable cause) := by
        unfold Descriptor.ofFile
        rw [hr,Effect.mapError_ok]
        simp only [bind,Except.bind,hd,Effect.mapError_error]
      rw [plan,opened,hfile]
      rfl
    | ok text =>
      have hsource : HasSource disk path (String.ofList (Text.plainNewlines text.toList)) :=
        ⟨bytes,text,hr,hd,rfl⟩
      obtain ⟨v,hv⟩ := exists_judged s path (String.ofList (Text.plainNewlines text.toList))
      exact .inr ⟨_,v,hsource,hv⟩

theorem entry_of_judged (h : HasSource disk path source) (hv : Judged s path source v) :
    (plan s disk path).entry s = some (v.entry s path) := by
  rw [plan_of_judged h hv]
  cases v <;> rfl

/-- A hook is made where the verdict says so. -/
theorem make_iff : plan s disk path = .make d ↔
    ∃ source, HasSource disk path source ∧ Judged s path source (.hooked d) := by
  constructor
  · intro hd
    rcases plan_cases s disk path with hf | ⟨source,v,hs,hv⟩
    · rw [hf] at hd; cases hd
    · rw [plan_of_judged hs hv] at hd
      cases v with
      | hooked d' =>
        obtain rfl := Plan.make.inj hd
        exact ⟨source,hs,hv⟩
      | _ => cases hd
  · rintro ⟨source,hs,hv⟩
    exact plan_of_judged hs hv

end Judged

end OperationHooks.Run
