import OperationHooks.Proofs.Format.Lines
/-!
Formatting changes nothing but white space. The lines on which something is seen are there
afterwards, in the same order; each keeps what is on it and starts in the same column.
-/
set_option autoImplicit false

namespace OperationHooks.Format

def fullLines (text : List Char) : List Line := (Text.splitLines text).filter isFull

def nextColumn (width reached : Nat) (c : Char) : Nat :=
  if c = '\t' then (reached / width + 1) * width else reached + 1

def column (width : Nat) (cs : List Char) : Nat := cs.foldl (nextColumn width) 0

/-- A line loses the white space at its end, its leading spaces become tabs and spaces that take the
same columns, or stay, and all between them stays. -/
def Realigned (o : Options) (source line : Line) : Prop :=
  ∃ (spaces : Nat) (indent body tail : Line),
    source = List.replicate spaces ' ' ++ body ++ tail ∧ line = indent ++ body ∧
      (∃ c ∈ body.head?, c ≠ ' ') ∧ (∃ c ∈ body.getLast?, Text.isBlank c = false) ∧
      (∀ c ∈ tail, Text.isBlank c = true) ∧
      (indent = if o.useTabs then
        List.replicate (spaces / o.tabWidth.toNat) '\t' ++ List.replicate
          (spaces % o.tabWidth.toNat) ' '
        else List.replicate spaces ' ') ∧
      column o.tabWidth.toNat indent = spaces

theorem foldl_tabs {width : Nat} (h : 0 < width) (tabs done : Nat) :
    (List.replicate tabs '\t').foldl (nextColumn width) (done * width) = (done + tabs) * width := by
  induction tabs generalizing done with
  | zero => rfl
  | succ tabs ih =>
    rw [List.replicate_succ,List.foldl_cons,nextColumn,if_pos rfl,
      Nat.mul_div_cancel done h,ih,Nat.add_assoc,
      Nat.add_comm 1]

theorem foldl_spaces (width spaces reached : Nat) :
    (List.replicate spaces ' ').foldl (nextColumn width) reached = reached + spaces := by
  induction spaces generalizing reached with
  | zero => rfl
  | succ spaces ih =>
    rw [List.replicate_succ,List.foldl_cons,nextColumn,if_neg (by decide),ih,
      Nat.add_assoc,Nat.add_comm 1]

theorem column_spaces (width spaces : Nat) : column width (List.replicate spaces ' ') = spaces := by
  rw [column,foldl_spaces,Nat.zero_add]

theorem column_tabs {width : Nat} (h : 0 < width) (spaces : Nat) :
    column width (List.replicate (spaces / width) '\t' ++ List.replicate (spaces % width) ' ') =
      spaces := by
  have htabs := foldl_tabs h (spaces / width) 0
  rw [Nat.zero_mul,Nat.zero_add] at htabs
  rw [column,List.foldl_append,htabs,foldl_spaces,Nat.div_add_mod']

section Lines

variable {o : Options} {line : Line} {text formatted : String}

theorem indentation_eq (h : o.useTabs = false ∨ 1 ≤ o.tabWidth) (spaces : Nat) :
    indentation o spaces = if o.useTabs then
      List.replicate (spaces / o.tabWidth.toNat) '\t' ++ List.replicate
        (spaces % o.tabWidth.toNat) ' '
      else List.replicate spaces ' ' := by
  rw [indentation]
  split
  · rename_i htabs
    have hw : 1 ≤ o.tabWidth := h.resolve_left (by simp [htabs])
    obtain ⟨width,hwidth⟩ := Int.eq_ofNat_of_zero_le (Int.le_trans Int.one_nonneg hw)
    rw [hwidth,Int.fdiv_eq_ediv_of_nonneg _ (Int.natCast_nonneg width),
      Int.fmod_eq_emod_of_nonneg _ (Int.natCast_nonneg width),← Int.natCast_ediv,← Int.natCast_emod]
    rfl
  · rfl

theorem column_indentation (h : o.useTabs = false ∨ 1 ≤ o.tabWidth) (spaces : Nat) :
    column o.tabWidth.toNat (indentation o spaces) = spaces := by
  rw [indentation_eq h]
  split
  · rename_i htabs
    have hw : 1 ≤ o.tabWidth := h.resolve_left (by simp [htabs])
    exact column_tabs (by omega) spaces
  · exact column_spaces _ spaces

theorem realigned_of_isFull (h : o.useTabs = false ∨ 1 ≤ o.tabWidth) (hline : isFull line = true) :
    Realigned o line (indentLine o (Text.trimEnd line)) := by
  obtain ⟨tail,hsource,htail⟩ := Text.exists_trimEnd line
  obtain ⟨spaces,body,hbody,hhead⟩ := exists_body (Text.trimEnd line)
  have hne : body ≠ [] := by
    rintro rfl
    rw [← isFull_trimEnd,hbody,List.append_nil,isFull,Text.visible_eq_nil_iff.2] at hline
    · cases hline
    · exact fun c hc => List.eq_of_mem_replicate hc ▸ by decide
  refine ⟨spaces,indentation o spaces,body,tail,by rw [← hbody,← hsource],?_,
    ⟨_,List.head?_eq_some_head hne,?_⟩,
    ⟨_,List.getLast_mem_getLast? hne,?_⟩,htail,indentation_eq h spaces,column_indentation h spaces⟩
  · rw [hbody,indentLine_append hhead]
  · exact hhead _ (List.head?_eq_some_head hne)
  · refine Text.isTrimmed_trimEnd line _ ?_
    rw [hbody,List.getLast?_append_of_ne_nil _ hne]
    exact List.getLast_mem_getLast? hne

theorem fullLines_basic (h : basic? o text = some formatted) : fullLines formatted.toList =
    (fullLines text.toList).map fun line => indentLine o (Text.trimEnd line) := by
  have hfull : (isFull ∘ fun line => indentLine o (Text.trimEnd line)) = isFull := by
    funext line
    rw [Function.comp_apply,isFull_indentLine,isFull_trimEnd]
  have hlines := filterMap_basic (f := Option.guard isFull) rfl h
  rw [List.filterMap_eq_filter] at hlines
  calc fullLines formatted.toList
      = ((Text.splitLines text.toList).map fun line => indentLine o (Text.trimEnd line)).filter
        isFull := by
        rw [fullLines,hlines,← List.filterMap_eq_filter,List.filterMap_map]; rfl
    _ = (fullLines text.toList).map fun line => indentLine o (Text.trimEnd line) := by
        rw [List.filter_map,hfull,fullLines]

theorem flatMap_visible_fullLines (cs : List Char) :
    (fullLines cs).flatMap Text.visible = Text.visible cs := by
  have hfull :
      ∀ lines : List Line, (lines.filter isFull).flatMap Text.visible =
      lines.flatMap Text.visible := by
    intro lines
    induction lines with
    | nil => rfl
    | cons line rest ih =>
      rw [List.filter_cons,List.flatMap_cons,← ih]
      split
      · rw [List.flatMap_cons]
      · rename_i hline
        have hempty : Text.visible line = [] := by simpa [isFull] using hline
        rw [hempty,List.nil_append]
  rw [fullLines,hfull,Text.flatMap_visible_splitLines]

end Lines

/-- Formatting realigns the lines on which something is seen, one by one, and the characters that
are seen stay as they are. -/
theorem basic_keeps_visible {o : Options} (h : o.useTabs = false ∨ 1 ≤ o.tabWidth) (text : String) :
    ∃ formatted, basic? o text = some formatted ∧
      List.Forall₂ (Realigned o) (fullLines text.toList) (fullLines formatted.toList) ∧
      Text.visible formatted.toList = Text.visible text.toList := by
  obtain ⟨formatted,hf⟩ := exists_basic (h.imp_right fun hw => by omega) text
  refine ⟨formatted,hf,?_,?_⟩
  · rw [fullLines_basic hf,List.forall₂_map_right_iff,List.forall₂_same]
    exact fun line hl => realigned_of_isFull h (List.mem_filter.1 hl).2
  · have hsame : ∀ line, Text.visible (indentLine o (Text.trimEnd line)) = Text.visible line :=
      fun line => by
      rw [visible_indentLine,Text.visible_trimEnd]
    calc Text.visible formatted.toList
        = (fullLines formatted.toList).flatMap Text.visible := (flatMap_visible_fullLines _).symm
      _ = (fullLines text.toList).flatMap Text.visible := by
          rw [fullLines_basic hf,List.flatMap_map]
          exact congrArg (List.flatMap · _) (funext hsame)
      _ = Text.visible text.toList := flatMap_visible_fullLines _

theorem basic_keeps_visible_tabbed :
    let o : Options := { Options.standard with useTabs := true, tabWidth := 4 }
    1 ≤ o.tabWidth ∧ basic? o "\u000cf(\u0085      \tx y;\u00a0 \n \n)" =
      some "f(\n\t  \tx y;\n\n)\n" ∧
      List.Forall₂ (Realigned o) ["f(".toList,"      \tx y;\u00a0 ".toList,")".toList]
        ["f(".toList,"\t  \tx y;".toList,")".toList] := by
  intro o
  obtain ⟨formatted,hf,hlines,-⟩ :=
    basic_keeps_visible (o := o) (.inr (by decide)) "\u000cf(\u0085      \tx y;\u00a0 \n \n)"
  have hformatted :
      basic? o "\u000cf(\u0085      \tx y;\u00a0 \n \n)" = some "f(\n\t  \tx y;\n\n)\n" := by
    decide +kernel
  obtain rfl : formatted = "f(\n\t  \tx y;\n\n)\n" := Option.some.inj (hf.symm.trans hformatted)
  have hsource : fullLines "\u000cf(\u0085      \tx y;\u00a0 \n \n)".toList =
      ["f(".toList,"      \tx y;\u00a0 ".toList,")".toList] := by decide +kernel
  have hresult :
      fullLines "f(\n\t  \tx y;\n\n)\n".toList = ["f(".toList,"\t  \tx y;".toList,")".toList] := by
    decide +kernel
  rw [hsource,hresult] at hlines
  exact ⟨by decide,hf,hlines⟩

end OperationHooks.Format
