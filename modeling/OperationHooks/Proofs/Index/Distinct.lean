import Mathlib.Data.List.Nodup
import OperationHooks.Proofs.Hook
import OperationHooks.Proofs.Index.Insertion
/-!
Statements that stand twice in an index. The modules of an index have different statements, so only
the one for nested hooks can meet another: that of a module called `hooks`, which no hook module is.
-/
set_option autoImplicit false

namespace OperationHooks.Index
open Format

section Distinct

variable {s : Settings} {d : Disk} {directory : Path} {nested : Bool}
  {entries names : List String} {text : String}

theorem nodup_statements (h : entries.Nodup) : ((sortEntries entries).map statement).Nodup :=
  ((sortEntries_perm entries).nodup_iff.2 h).map fun _ _ => statement_injective

theorem nestedStatement_mem : nestedStatement ∈ (sortEntries entries).map statement ↔
    "hooks" ∈ entries := by
  rw [nestedStatement,List.mem_map_of_injective fun _ _ => statement_injective,
    (sortEntries_perm entries).mem_iff]

theorem nodup_linesOf_iff (h : entries.Nodup) :
    (linesOf nested entries).Nodup ↔ ¬ (nested = true ∧ "hooks" ∈ entries) := by
  unfold linesOf
  cases nested with
  | false => simpa using nodup_statements h
  | true => simp [nestedStatement_mem,nodup_statements h]

theorem text_eq_ok : s.text d directory entries = .ok text ↔
    ∃ nested, d.isFile (s.nestedIndex directory) = .ok nested ∧ textOf nested entries = text := by
  unfold Settings.text
  cases hn : d.isFile (s.nestedIndex directory) with
  | error fault => simp [bind,Except.bind,Except.mapError]
  | ok nested => simp [bind,Except.bind,Except.mapError,pure,Except.pure,textOf,linesOf]

theorem splitLines_textOf
    (hends : ∀ baseName ∈ entries, ∀ c ∈ baseName.toList, Text.isLineEnd c = false)
    (hne : linesOf nested entries ≠ []) :
    Text.splitLines (textOf nested entries).toList =
      (linesOf nested entries).map String.toList := by
  rw [toList_textOf]
  exact splitLines_joinWithEnds (by simpa using hne) fun line hl =>
    (isNeat_linesOf hends line hl).ends

theorem nodup_splitLines_iff
    (hends : ∀ baseName ∈ entries, ∀ c ∈ baseName.toList, Text.isLineEnd c = false) :
    (Text.splitLines (textOf nested entries).toList).Nodup ↔ (linesOf nested entries).Nodup := by
  by_cases hne : linesOf nested entries = []
  · have htext : textOf nested entries = "\n" := by
      rw [textOf,hne]
      rfl
    rw [hne,htext]
    decide
  · rw [splitLines_textOf hends hne,List.nodup_map_iff fun _ _ => String.toList_injective]

/-- An index says everything once, unless a module called `hooks` stands beside an index of nested
hooks. -/
theorem statements_distinct_iff
    (h : s.text d directory (State.empty.addAll names).entries = .ok text) :
    ∃ nested, d.isFile (s.nestedIndex directory) = .ok nested ∧
      text = textOf nested (State.empty.addAll names).entries ∧
      ((linesOf nested (State.empty.addAll names).entries).Nodup ↔
        ¬ (nested = true ∧ "hooks" ∈ names)) ∧
      ((∀ baseName ∈ names, ∀ c ∈ baseName.toList, Text.isLineEnd c = false) →
        ((Text.splitLines text.toList).Nodup ↔ ¬ (nested = true ∧ "hooks" ∈ names))) := by
  obtain ⟨nested,hnested,rfl⟩ := text_eq_ok.1 h
  have hlines : (linesOf nested (State.empty.addAll names).entries).Nodup ↔
      ¬ (nested = true ∧ "hooks" ∈ names) := by
    rw [nodup_linesOf_iff (State.nodup_gathered names),State.mem_gathered]
  refine ⟨nested,hnested,rfl,hlines,fun hends => ?_⟩
  rw [nodup_splitLines_iff fun baseName hb => hends baseName (State.mem_gathered.1 hb),hlines]

end Distinct

theorem hook_statements_distinct {names : List String} (nested : Bool)
    (h : ∀ baseName ∈ names, ∃ (s : Hook.Settings) (e : Extension) (d : Descriptor),
      s.extension = e.text ∧
      d.IsNamed ∧ baseName = (s.outputPath d).stem) :
    (linesOf nested (State.empty.addAll names).entries).Nodup := by
  rw [nodup_linesOf_iff (State.nodup_gathered names),State.mem_gathered]
  rintro ⟨-,hhooks⟩
  obtain ⟨s,e,d,he,hn,hstem⟩ := h _ hhooks
  obtain ⟨place,front,hpath⟩ := Hook.Settings.exists_outputPath_eq ⟨e,he⟩ hn
  rw [hpath,Hook.Settings.fileName] at hstem
  dsimp only at hstem
  rw [stem_childOf _ (Hook.Settings.nameOf_ne _ d) (he ▸ e.text_ne) (he ▸ e.dot_not_mem_text)]
    at hstem
  obtain ⟨c,hc,hlast⟩ := Hook.Settings.nameOf_eq { s with namePrefix := front } d
  rw [← hstem] at hlast
  obtain rfl : 's' = c := Option.some.inj hlast
  simp at hc

theorem statements_distinct_nested : ∃ text,
    tabbedSettings.text nestedHooks (.ofString "a")
      (State.empty.addAll ["useBQuery","useAQuery","useBQuery"]).entries = .ok text ∧
    (Text.splitLines text.toList).Nodup := by
  have htext : ∃ text, tabbedSettings.text nestedHooks (.ofString "a")
      (State.empty.addAll ["useBQuery","useAQuery","useBQuery"]).entries = .ok text :=
    ⟨_,text_eq_ok.2 ⟨true,by decide,rfl⟩⟩
  obtain ⟨text,htext⟩ := htext
  obtain ⟨nested,-,-,-,hlines⟩ := statements_distinct_iff htext
  have hends : (["useBQuery","useAQuery","useBQuery"].all fun name =>
      name.toList.all fun c => !Text.isLineEnd c) = true := by decide
  refine ⟨text,htext,(hlines fun name hn c hc => ?_).2 fun hhooks => absurd hhooks.2 (by decide)⟩
  simpa using List.all_eq_true.1 (List.all_eq_true.1 hends name hn) c hc

/-- The module `hooks` beside `hooks/index`: both have the same statement. -/
theorem hooks_statement_repeated : ∃ text,
    tabbedSettings.text nestedHooks (.ofString "a") (State.empty.addAll ["hooks"]).entries =
      .ok text ∧
    ¬ (Text.splitLines text.toList).Nodup :=
  ⟨_,text_eq_ok.2 ⟨true,by decide,rfl⟩,by decide +kernel⟩

end OperationHooks.Index
