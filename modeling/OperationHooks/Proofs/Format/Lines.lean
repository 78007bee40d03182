import Mathlib.Data.List.Chain
import OperationHooks.Proofs.Format
/-!
The lines of a text that is put in order. Each line becomes an indentation and what stood behind its
leading spaces; of the lines none is dropped on which something is seen, and those that are kept are
tidy: two of them that are blank are not neighbours, and none of these stands at an end.
-/
set_option autoImplicit false

namespace OperationHooks.Format

def indentation (o : Options) (spaces : Nat) : Line :=
  if o.useTabs then
    List.replicate (Int.fdiv spaces o.tabWidth).toNat '\t' ++
      List.replicate (Int.fmod spaces o.tabWidth).toNat ' '
  else List.replicate spaces ' '

section Indentation

variable {o : Options} {line body : Line} {spaces : Nat}

theorem mem_indentation {c : Char} (h : c ∈ indentation o spaces) : c = '\t' ∨ c = ' ' := by
  unfold indentation at h
  split at h
  · exact (List.mem_append.1 h).imp List.eq_of_mem_replicate List.eq_of_mem_replicate
  · exact .inr (List.eq_of_mem_replicate h)

theorem isBlank_of_mem_indentation {c : Char} (h : c ∈ indentation o spaces) :
    Text.isBlank c = true := by
  rcases mem_indentation h with rfl | rfl <;> decide

/-- A line is its leading spaces and what is behind them. -/
theorem exists_body (line : Line) :
    ∃ spaces body, line = List.replicate spaces ' ' ++ body ∧ ∀ c ∈ body.head?, c ≠ ' ' := by
  refine ⟨leadingSpaces line,line.dropWhile (· = ' '),?_,fun c hc => ?_⟩
  · have hspaces : line.takeWhile (· = ' ') = List.replicate (leadingSpaces line) ' ' :=
      List.eq_replicate_iff.2
        ⟨rfl,fun c hc => by simpa using List.all_eq_true.1 List.all_takeWhile c hc⟩
    rw [← hspaces,List.takeWhile_append_dropWhile]
  · have hhead := List.head?_dropWhile_not (· = ' ') line
    rw [hc] at hhead
    simpa using hhead

theorem leadingSpaces_append (h : ∀ c ∈ body.head?, c ≠ ' ') :
    leadingSpaces (List.replicate spaces ' ' ++ body) = spaces := by
  rw [leadingSpaces,Text.takeWhile_run (by simp) (by simpa using h),List.length_replicate]

theorem indentLine_append (h : ∀ c ∈ body.head?, c ≠ ' ') :
    indentLine o (List.replicate spaces ' ' ++ body) = indentation o spaces ++ body := by
  have hdrop : (List.replicate spaces ' ' ++ body).drop spaces = body :=
    List.drop_left' List.length_replicate
  simp only [indentLine,indentation,tabbed,leadingSpaces_append h,hdrop]
  split <;> rfl

theorem exists_indentLine (o : Options) (line : Line) :
    ∃ indent, (∀ c ∈ indent, c = '\t' ∨ c = ' ') ∧
    (indentLine o line = indent ++ line.dropWhile (· = ' ')) := by
  obtain ⟨spaces,body,rfl,hbody⟩ := exists_body line
  have hdrop : (List.replicate spaces ' ' ++ body).dropWhile (· = ' ') = body :=
    Text.dropWhile_run (by simp) (by simpa using hbody)
  exact ⟨indentation o spaces,fun c => mem_indentation,by rw [indentLine_append hbody,hdrop]⟩

theorem visible_indentLine (o : Options) (line : Line) :
    Text.visible (indentLine o line) = Text.visible line := by
  obtain ⟨spaces,body,rfl,hbody⟩ := exists_body line
  have hspaces : Text.visible (List.replicate spaces ' ') = [] :=
    Text.visible_eq_nil_iff.2 fun c hc => List.eq_of_mem_replicate hc ▸ by decide
  rw [indentLine_append hbody,Text.visible_append,Text.visible_append,hspaces,
    Text.visible_eq_nil_iff.2 fun c => isBlank_of_mem_indentation]

theorem isTrimmed_indentLine (h : Text.IsTrimmed line) (o : Options) :
    Text.IsTrimmed (indentLine o line) := by
  obtain ⟨spaces,body,rfl,hbody⟩ := exists_body line
  by_cases hne : body = []
  · have hblank : Text.visible (List.replicate spaces ' ' ++ body) = [] := by
      rw [Text.visible_eq_nil_iff,hne,List.append_nil]
      exact fun c hc => List.eq_of_mem_replicate hc ▸ by decide
    rw [h.visible_eq_nil_iff.1 hblank,indentLine_nil]
    exact fun c hc => by cases hc
  · rw [indentLine_append hbody]
    intro c hc
    refine h c ?_
    rwa [List.getLast?_append_of_ne_nil _ hne] at hc ⊢

theorem isLineEnd_of_indentLine (h : ∀ c ∈ line, Text.isLineEnd c = false) {c : Char}
    (hc : c ∈ indentLine o line) : Text.isLineEnd c = false := by
  obtain ⟨spaces,body,rfl,hbody⟩ := exists_body line
  rw [indentLine_append hbody,List.mem_append] at hc
  rcases hc with hc | hc
  · rcases mem_indentation hc with rfl | rfl <;> decide
  · exact h c (List.mem_append_right _ hc)

end Indentation

section Kept

variable {α : Type} {f : Line → Option α}

theorem filterMap_squeeze (hf : f [] = none) (afterBlank : Bool) (lines : List Line) :
    (squeeze afterBlank lines).filterMap f = lines.filterMap f := by
  induction lines generalizing afterBlank with
  | nil => rfl
  | cons line rest ih =>
    rw [squeeze]
    split
    · rename_i hblank
      rw [Bool.and_eq_true,List.isEmpty_iff] at hblank
      rw [ih,hblank.1,List.filterMap_cons,hf]
    · rw [List.filterMap_cons,List.filterMap_cons,ih]

theorem dropBlankEnd_eq (lines : List Line) :
    dropBlankEnd lines = lines.rdropWhile List.isEmpty := rfl

theorem filterMap_dropBlankEnd (hf : f [] = none) (lines : List Line) :
    (dropBlankEnd lines).filterMap f = lines.filterMap f := by
  have hend : (lines.rtakeWhile List.isEmpty).filterMap f = [] := by
    rw [List.filterMap_eq_nil_iff]
    intro line hl
    rw [List.isEmpty_iff.1 (List.mem_rtakeWhile_imp hl),hf]
  calc (dropBlankEnd lines).filterMap f
      = (lines.rdropWhile List.isEmpty ++ lines.rtakeWhile List.isEmpty).filterMap f := by
        rw [List.filterMap_append,hend,List.append_nil,dropBlankEnd_eq]
    _ = lines.filterMap f := by rw [List.rdropWhile_append_rtakeWhile]

theorem filterMap_keptLines (hf : f [] = none) (text : List Char) :
    (keptLines text).filterMap f = (Text.splitLines text).filterMap fun line =>
      f (Text.trimEnd line) := by
  rw [keptLines,filterMap_dropBlankEnd hf,filterMap_squeeze hf,List.filterMap_map]
  rfl

theorem squeeze_sublist (afterBlank : Bool) (lines : List Line) :
    (squeeze afterBlank lines).Sublist lines := by
  induction lines generalizing afterBlank with
  | nil => exact List.Sublist.slnil
  | cons line rest ih =>
    rw [squeeze]
    split
    · exact (ih true).cons line
    · exact (ih line.isEmpty).cons_cons line

theorem dropBlankEnd_isPrefix (lines : List Line) : dropBlankEnd lines <+: lines :=
  List.rdropWhile_prefix _ _

theorem exists_of_mem_keptLines {text : List Char} {line : Line} (h : line ∈ keptLines text) :
    ∃ whole ∈ Text.splitLines text, Text.trimEnd whole = line :=
  List.mem_map.1 ((squeeze_sublist _ _).subset ((dropBlankEnd_isPrefix _).subset h))

end Kept

theorem splitLines_joinWithEnds {lines : List Line} (hne : lines ≠ [])
    (h : ∀ line ∈ lines, ∀ c ∈ line, Text.isLineEnd c = false) :
    Text.splitLines (joinWithEnds lines) = lines := by
  induction lines with
  | nil => exact absurd rfl hne
  | cons line rest ih =>
    obtain ⟨hline,hrest⟩ := List.forall_mem_cons.1 h
    cases rest with
    | nil =>
      have hjoin : joinWithEnds [line] = line ++ '\n' :: [] := by simp [joinWithEnds]
      rw [hjoin,Text.splitLines_cons hline]
      rfl
    | cons next rest =>
      have hjoin :
          joinWithEnds (line :: next :: rest) = line ++ '\n' :: joinWithEnds (next :: rest) := by
        simp [joinWithEnds]
      rw [hjoin,Text.splitLines_cons hline,ih (by simp) hrest]

def isFull (line : Line) : Bool := !(Text.visible line).isEmpty

structure TidyLines (lines : List Line) : Prop where
  unbroken : ∀ line ∈ lines, ∀ c ∈ line, Text.isLineEnd c = false
  trimmed : ∀ line ∈ lines, Text.IsTrimmed line
  first : ∀ line ∈ lines.head?, isFull line = true
  last : ∀ line ∈ lines.getLast?, isFull line = true
  apart : lines.IsChain fun line next => isFull line = true ∨ isFull next = true

section Tidy

variable {o : Options} {line : Line} {lines : List Line} {text : List Char}

theorem isFull_trimEnd (line : Line) : isFull (Text.trimEnd line) = isFull line := by
  rw [isFull,Text.visible_trimEnd,isFull]

theorem isFull_indentLine (o : Options) (line : Line) :
    isFull (indentLine o line) = isFull line := by
  rw [isFull,visible_indentLine,isFull]

theorem isFull_eq_true (h : Text.IsTrimmed line) : isFull line = true ↔ line ≠ [] := by
  rw [isFull,Bool.not_eq_true',List.isEmpty_eq_false_iff,Ne,h.visible_eq_nil_iff]

/-- No two blank lines are left together, and none at the front if it would follow one. -/
theorem squeeze_apart (afterBlank : Bool) (lines : List Line) :
    (squeeze afterBlank lines).IsChain (fun line next => line ≠ [] ∨ next ≠ []) ∧
      (afterBlank = true → ∀ line ∈ (squeeze afterBlank lines).head?, line ≠ []) := by
  induction lines generalizing afterBlank with
  | nil => exact ⟨.nil,fun _ line hl => by cases hl⟩
  | cons line rest ih =>
    rw [squeeze]
    split
    · exact ⟨(ih true).1,fun _ => (ih true).2 rfl⟩
    · rename_i hkept
      refine ⟨List.isChain_cons.2 ⟨fun next hn => ?_,(ih line.isEmpty).1⟩,?_⟩
      · by_cases hline : line = []
        · exact .inr ((ih line.isEmpty).2 (by simp [hline]) next hn)
        · exact .inl hline
      · rintro rfl _ hl
        obtain rfl := Option.some.inj hl
        simpa using hkept

theorem squeeze_eq_self {afterBlank : Bool}
    (h : lines.IsChain fun line next => line ≠ [] ∨ next ≠ [])
    (hfirst : afterBlank = true → ∀ line ∈ lines.head?, line ≠ []) :
      squeeze afterBlank lines = lines := by
  induction lines generalizing afterBlank with
  | nil => rfl
  | cons line rest ih =>
    obtain ⟨hnext,hrest⟩ := List.isChain_cons.1 h
    have hline : ¬ (line.isEmpty && afterBlank) = true := by
      rw [Bool.and_eq_true,List.isEmpty_iff]
      exact fun ⟨hempty,hafter⟩ => hfirst hafter line rfl hempty
    rw [squeeze,if_neg hline,ih hrest]
    intro hempty next hn
    exact (hnext next hn).resolve_left (not_not.2 (List.isEmpty_iff.1 hempty))

theorem getLast?_dropBlankEnd (lines : List Line) :
    ∀ line ∈ (dropBlankEnd lines).getLast?, line ≠ [] := by
  rw [dropBlankEnd_eq]
  intro line hl
  obtain ⟨hne,rfl⟩ := List.mem_getLast?_eq_getLast hl
  simpa using List.rdropWhile_last_not List.isEmpty lines hne

theorem dropBlankEnd_eq_self (h : ∀ line ∈ lines.getLast?, line ≠ []) :
    dropBlankEnd lines = lines := by
  refine List.rdropWhile_eq_self_iff.2 fun hne => ?_
  simpa using h _ (List.getLast_mem_getLast? hne)

theorem tidyLines_keptLines (text : List Char) : TidyLines (keptLines text) := by
  have htrimmed : ∀ line ∈ keptLines text, Text.IsTrimmed line := by
    intro line hl
    obtain ⟨whole,-,rfl⟩ := exists_of_mem_keptLines hl
    exact Text.isTrimmed_trimEnd whole
  obtain ⟨hchain,hfirst⟩ := squeeze_apart true ((Text.splitLines text).map Text.trimEnd)
  have hprefix := dropBlankEnd_isPrefix (squeeze true ((Text.splitLines text).map Text.trimEnd))
  refine ⟨fun line hl c hc => ?_,htrimmed,fun line hl => ?_,fun line hl => ?_,?_⟩
  · obtain ⟨whole,hwhole,rfl⟩ := exists_of_mem_keptLines hl
    exact Text.isLineEnd_of_mem_splitLines hwhole ((Text.trimEnd_isPrefix whole).subset hc)
  · rw [isFull_eq_true (htrimmed line (List.mem_of_mem_head? hl))]
    obtain ⟨tail,htail⟩ := hprefix
    rw [keptLines] at hl
    refine hfirst rfl line ?_
    rw [← htail,List.head?_append,hl]
    rfl
  · rw [isFull_eq_true (htrimmed line (List.mem_of_mem_getLast? hl))]
    exact getLast?_dropBlankEnd _ line hl
  · have hkept : (keptLines text).IsChain _ := List.IsChain.prefix hchain hprefix
    refine hkept.imp_of_mem_imp fun line next hl hn h => ?_
    rwa [isFull_eq_true (htrimmed line hl),isFull_eq_true (htrimmed next hn)]

theorem TidyLines.indented (h : TidyLines lines) (o : Options) :
    TidyLines (lines.map (indentLine o)) where
  unbroken := List.forall_mem_map.2 fun line hl _ => isLineEnd_of_indentLine (h.unbroken line hl)
  trimmed := List.forall_mem_map.2 fun line hl => isTrimmed_indentLine (h.trimmed line hl) o
  first := by
    rw [List.head?_map]
    rintro _ hl
    obtain ⟨line,hline,rfl⟩ := Option.map_eq_some_iff.1 hl
    rw [isFull_indentLine]
    exact h.first line hline
  last := by
    rw [List.getLast?_map]
    rintro _ hl
    obtain ⟨line,hline,rfl⟩ := Option.map_eq_some_iff.1 hl
    rw [isFull_indentLine]
    exact h.last line hline
  apart := by
    rw [List.isChain_map]
    exact h.apart.imp fun line next h => by rwa [isFull_indentLine,isFull_indentLine]

theorem TidyLines.keptLines_joinWithEnds (h : TidyLines lines) :
    keptLines (joinWithEnds lines) = lines := by
  by_cases hne : lines = []
  · subst hne; rfl
  have htrim : lines.map Text.trimEnd = lines :=
    (List.map_congr_left fun line hl => (h.trimmed line hl).trimEnd_eq).trans (List.map_id lines)
  have hfull : ∀ line ∈ lines, isFull line = true → line ≠ [] :=
    fun line hl => (isFull_eq_true (h.trimmed line hl)).1
  have happart : lines.IsChain fun line next => line ≠ [] ∨ next ≠ [] :=
    h.apart.imp_of_mem_imp fun line next hl hn => Or.imp (hfull line hl) (hfull next hn)
  rw [keptLines,splitLines_joinWithEnds hne h.unbroken,htrim,
    squeeze_eq_self happart fun _ line hl =>
      hfull line (List.mem_of_mem_head? hl) (h.first line hl),
    dropBlankEnd_eq_self fun line hl => hfull line (List.mem_of_mem_getLast? hl) (h.last line hl)]

theorem tidyLines_of_neat (h : ∀ line ∈ lines, IsNeat line) : TidyLines lines := by
  have htrimmed : ∀ line ∈ lines, Text.IsTrimmed line := fun line hl =>
    (h line hl).trimmed ▸ Text.isTrimmed_trimEnd line
  have hfull : ∀ line ∈ lines, isFull line = true := fun line hl =>
    (isFull_eq_true (htrimmed line hl)).2 (h line hl).ne_nil
  exact ⟨fun line hl => (h line hl).ends,htrimmed,
    fun line hl => hfull line (List.mem_of_mem_head? hl),
    fun line hl => hfull line (List.mem_of_mem_getLast? hl),
    (List.pairwise_of_forall_mem_list fun line hl _ _ => .inl (hfull line hl)).isChain⟩

/-- Lines that have nothing to put in order stay as they are. -/
theorem basic_of_neat {text formatted : String} (h : ∀ line ∈ lines, IsNeat line)
    (ht : text.toList = joinWithEnds lines) (hf : basic? o text = some formatted) :
      formatted = text := by
  have hindent : lines.map (indentLine o) = lines :=
    (List.map_congr_left fun line hl => (h line hl).indentLine o).trans (List.map_id lines)
  apply String.toList_injective
  rw [(basic?_eq_some_iff.1 hf).2,ht,(tidyLines_of_neat h).keptLines_joinWithEnds,hindent]

/-- What is found on the lines of a formatted text is found on those of the text, put in order. -/
theorem filterMap_basic {α : Type} {f : Line → Option α} {text formatted : String}
    (hf : f [] = none)
    (h : basic? o text = some formatted) : (Text.splitLines formatted.toList).filterMap f =
      (Text.splitLines text.toList).filterMap fun line => f (indentLine o (Text.trimEnd line)) := by
  have hempty : f (indentLine o []) = none := by rw [indentLine_nil,hf]
  have htidy := (tidyLines_keptLines text.toList).indented o
  rw [(basic?_eq_some_iff.1 h).2,
    ← filterMap_keptLines (f := fun line => f (indentLine o line)) hempty]
  by_cases hne : keptLines text.toList = []
  · rw [hne]
    simp [joinWithEnds,Text.splitLines,Text.isLineEnd,hf]
  · rw [splitLines_joinWithEnds (by simpa using hne) htidy.unbroken,List.filterMap_map]
    rfl

end Tidy

end OperationHooks.Format
