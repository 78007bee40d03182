import OperationHooks.Proofs.Index.Text
/-!
An index with one name more: the built-in formatter writes the lines it wrote before and one new
line among them, in whatever order the names came.
-/
set_option autoImplicit false

namespace OperationHooks.Index
open Format

def State.addAll (state : State) (names : List String) : State :=
  names.foldl (fun state baseName => (state.add? baseName).getD state) state

namespace State

theorem mem_add {state : State} {baseName other : String} :
    other ∈ ((state.add? baseName).getD state).entries ↔ other = baseName ∨
    other ∈ state.entries := by
  by_cases h : baseName ∈ state.entries
  · rw [add?,if_pos (List.contains_iff_mem.2 h)]
    refine ⟨.inr,?_⟩
    rintro (rfl | ho)
    · exact h
    · exact ho
  · rw [add?,if_neg (by simpa using h)]
    simp [or_comm]

theorem nodup_add {state : State} (h : state.entries.Nodup) (baseName : String) :
    ((state.add? baseName).getD state).entries.Nodup := by
  by_cases hb : baseName ∈ state.entries
  · rw [add?,if_pos (List.contains_iff_mem.2 hb)]
    exact h
  · rw [add?,if_neg (by simpa using hb)]
    have hne : ∀ x ∈ state.entries, x ≠ baseName := fun x hx he => hb (he ▸ hx)
    simpa [List.nodup_append,h] using hne

theorem addAll_spec (names : List String) {state : State} (h : state.entries.Nodup) :
    (state.addAll names).entries.Nodup ∧
      ∀ baseName, baseName ∈ (state.addAll names).entries ↔ baseName ∈ names ∨
      baseName ∈ state.entries := by
  induction names generalizing state with
  | nil => exact ⟨h,fun baseName => by simp [addAll]⟩
  | cons first rest ih =>
    obtain ⟨hnodup,hmem⟩ := ih (nodup_add h first)
    refine ⟨hnodup,fun baseName => (hmem baseName).trans ?_⟩
    rw [mem_add,List.mem_cons,or_left_comm,or_assoc]

theorem mem_gathered {names : List String} {baseName : String} :
    baseName ∈ (empty.addAll names).entries ↔ baseName ∈ names := by
  have hspec : (empty.addAll names).entries.Nodup ∧ ∀ x, x ∈ (empty.addAll names).entries ↔
      x ∈ names ∨ x ∈ empty.entries := addAll_spec names List.nodup_nil
  simpa [empty] using hspec.2 baseName

theorem nodup_gathered (names : List String) : (empty.addAll names).entries.Nodup :=
  (addAll_spec names List.nodup_nil).1

end State

theorem sortEntries_cons {entries entries' : List String} {baseName : String}
    (h : entries'.Perm (baseName :: entries)) : ∃ before after,
      sortEntries entries = before ++ after ∧ sortEntries entries' =
        before ++ baseName :: after := by
  have hmem : baseName ∈ sortEntries entries' :=
    (sortEntries_perm entries').mem_iff.2 (h.mem_iff.2 List.mem_cons_self)
  obtain ⟨before,after,hsplit⟩ := List.append_of_mem hmem
  have hsorted : (before ++ after).Pairwise (precedes · ·) :=
    (hsplit ▸ pairwise_sortEntries entries').sublist
      (List.sublist_cons_self ..|>.append_left before)
  have hperm : (baseName :: (before ++ after)).Perm (baseName :: sortEntries entries) := by
    refine List.perm_middle.symm.trans ?_
    rw [← hsplit]
    exact ((sortEntries_perm entries').trans h).trans ((sortEntries_perm entries).symm.cons _)
  refine ⟨before,after,?_,hsplit⟩
  exact (List.Perm.eq_of_pairwise (fun _ _ _ _ hab hba => precedes_antisymm hab hba) hsorted
    (pairwise_sortEntries entries) hperm.cons_inv).symm

def ofLines (lines : List String) : String := String.join (lines.map (· ++ "\n"))

theorem intercalate_concat {lines : List String} (h : lines ≠ []) :
    "\n".intercalate lines ++ "\n" = ofLines lines := by
  apply String.toList_injective
  induction lines with
  | nil => exact absurd rfl h
  | cons first rest ih =>
    cases rest with
    | nil => simp [ofLines]
    | cons next rest =>
      simpa [ofLines] using ih (List.cons_ne_nil next rest)

theorem textOf_eq {entries : List String} (h : entries ≠ []) (nested : Bool) :
    textOf nested entries = ofLines (linesOf nested entries) :=
  intercalate_concat fun he => linesOf_ne_nil h nested (congrArg (List.map String.toList) he)

theorem linesOf_cons {entries entries' : List String} {baseName : String}
    (h : entries'.Perm (baseName :: entries)) (nested : Bool) : ∃ before after,
      linesOf nested entries = before ++ after ∧
      linesOf nested entries' = before ++ statement baseName :: after := by
  obtain ⟨before,after,hold,hnew⟩ := sortEntries_cons h
  refine ⟨(if nested then [nestedStatement] else []) ++ before.map statement,
    after.map statement,?_,?_⟩
  · rw [linesOf_eq,hold,List.map_append,List.append_assoc]
  · rw [linesOf_eq,hnew,List.map_append,List.map_cons,List.append_assoc]

theorem formatted_basic {s : Settings} {env : Environment} {o : Options}
    (hs : s.formatting = Formatter.format env o [.basic])
    (htabs : o.useTabs = false ∨ o.tabWidth ≠ 0)
    {entries : List String} (hne : entries ≠ [])
    (hends : ∀ baseName ∈ entries, ∀ c ∈ baseName.toList, Text.isLineEnd c = false) {d : Disk}
    {directory : Path} {nested : Bool} (hnested : d.isFile (s.nestedIndex directory) = .ok nested) :
    s.formatted d directory entries = .ok (ofLines (linesOf nested entries)) := by
  rw [formatted_eq,hnested]
  show (s.formatting d (textOf nested entries)).mapError Fault.format = _
  rw [hs,format_basic,basic_textOf_eq htabs hends,← textOf_eq hne]
  rfl

section Insertion

variable {s : Settings} {env : Environment} {o : Options} {names more : List String}
  {baseName : String}

/-- A new name adds one line to an index and leaves every other line as it is, in whatever order the
names came; where it cannot be told whether there is an index of nested hooks, neither index is
written. -/
theorem index_gains_line (hs : s.formatting = Formatter.format env o [.basic])
    (htabs : o.useTabs = false ∨ o.tabWidth ≠ 0) (hne : names ≠ []) (hnew : baseName ∉ names)
    (hmore : ∀ other, other ∈ more ↔ other = baseName ∨ other ∈ names)
    (hends : ∀ other ∈ more, ∀ c ∈ other.toList, Text.isLineEnd c = false) (d : Disk)
    (directory : Path) :
    (∃ fault, d.isFile (s.nestedIndex directory) = .error fault ∧
      s.formatted d directory (State.empty.addAll names).entries = .error (.ofLookUp fault) ∧
      s.formatted d directory (State.empty.addAll more).entries = .error (.ofLookUp fault)) ∨
    ∃ before after,
      s.formatted d directory (State.empty.addAll names).entries = .ok (ofLines (before ++ after)) ∧
      s.formatted d directory (State.empty.addAll more).entries =
        .ok (ofLines (before ++ statement baseName :: after)) ∧
      ∀ line ∈ before ++ statement baseName :: after, ∀ c ∈ line.toList,
        Text.isLineEnd c = false := by
  have hperm :
      (State.empty.addAll more).entries.Perm (baseName :: (State.empty.addAll names).entries) := by
    refine (List.perm_ext_iff_of_nodup (State.nodup_gathered more)
      (List.nodup_cons.2 ⟨fun h => hnew (State.mem_gathered.1 h),State.nodup_gathered names⟩)).2
        fun other => ?_
    rw [State.mem_gathered,List.mem_cons,State.mem_gathered]
    exact hmore other
  have hmoreEnds : ∀ other ∈ (State.empty.addAll more).entries, ∀ c ∈ other.toList,
      Text.isLineEnd c = false := fun other ho => hends other (State.mem_gathered.1 ho)
  have hnamesEnds : ∀ other ∈ (State.empty.addAll names).entries, ∀ c ∈ other.toList,
      Text.isLineEnd c = false := fun other ho =>
    hends other ((hmore other).2 (.inr (State.mem_gathered.1 ho)))
  obtain ⟨first,hfirst⟩ := List.exists_mem_of_ne_nil _ hne
  have hnamesNe := List.ne_nil_of_mem (State.mem_gathered.2 hfirst)
  have hmoreNe := List.ne_nil_of_mem (State.mem_gathered.2 ((hmore baseName).2 (.inl rfl)))
  cases hnested : d.isFile (s.nestedIndex directory) with
  | error fault =>
    refine .inl ⟨fault,rfl,?_,?_⟩ <;> rw [formatted_eq,hnested]
  | ok nested =>
    obtain ⟨before,after,hold,hgrown⟩ := linesOf_cons hperm nested
    refine .inr ⟨before,after,?_,?_,fun line hl => ?_⟩
    · rw [formatted_basic hs htabs hnamesNe hnamesEnds hnested,hold]
    · rw [formatted_basic hs htabs hmoreNe hmoreEnds hnested,hgrown]
    · rw [← hgrown] at hl
      exact (isNeat_linesOf hmoreEnds _ (List.mem_map_of_mem hl)).ends

end Insertion

/-- The index of `a` beside one of its nested hooks, indented by tabs. -/
def tabbedSettings : Settings :=
  ⟨"ts",true,standardNested,Formatter.format [] { Options.standard with useTabs := true } [.basic]⟩

def nestedHooks : Disk where
  here := []
  tree :=
    ⟨[(["a"],.directory),(["a","hooks"],.directory),(["a","hooks","index.ts"],.file [] false)]⟩

theorem index_gains_line_nested : ∃ before after,
    tabbedSettings.formatted nestedHooks (.ofString "a")
      (State.empty.addAll ["useBQuery","hooks"]).entries = .ok (ofLines (before ++ after)) ∧
    tabbedSettings.formatted nestedHooks (.ofString "a")
      (State.empty.addAll ["useAQuery","hooks","useBQuery","hooks"]).entries =
        .ok (ofLines (before ++ statement "useAQuery" :: after)) ∧
    ∀ line ∈ before ++ statement "useAQuery" :: after, ∀ c ∈ line.toList,
      Text.isLineEnd c = false := by
  have hnested :
      nestedHooks.isFile (tabbedSettings.nestedIndex (.ofString "a")) = .ok true := by decide
  have hends : (["useAQuery","hooks","useBQuery","hooks"].all fun name =>
      name.toList.all fun c => !Text.isLineEnd c) = true := by decide
  refine (index_gains_line (s := tabbedSettings) rfl (.inr (by decide)) (by decide) (by decide)
    (fun other => by simp; tauto) (fun other ho c hc => ?_) nestedHooks
      (.ofString "a")).resolve_left ?_
  · simpa using List.all_eq_true.1 (List.all_eq_true.1 hends other ho) c hc
  · rintro ⟨fault,hfault,-⟩
    rw [hnested] at hfault
    cases hfault

end OperationHooks.Index
