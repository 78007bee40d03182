import OperationHooks.Format.Formatter
import OperationHooks.Proofs.Text.Blank

set_option autoImplicit false

namespace OperationHooks

namespace Format

theorem indentLine_nil (o : Options) : indentLine o [] = [] := by
  unfold indentLine tabbed leadingSpaces
  split <;> simp

theorem indentLine_cons (o : Options) {c : Char} (h : c ≠ ' ') (rest : Line) :
    indentLine o (c :: rest) = c :: rest := by
  have hspaces : leadingSpaces (c :: rest) = 0 := by simp [leadingSpaces,h]
  unfold indentLine tabbed
  rw [hspaces]
  simp

structure IsNeat (line : Line) : Prop where
  ends : ∀ c ∈ line, Text.isLineEnd c = false
  trimmed : Text.trimEnd line = line
  head : ∃ c rest, line = c :: rest ∧ c ≠ ' '

section Lines

variable {o : Options} {line : Line} {text : List Char}

theorem IsNeat.ne_nil (h : IsNeat line) : line ≠ [] := by
  obtain ⟨c,rest,rfl,-⟩ := h.head; simp

theorem IsNeat.indentLine (h : IsNeat line) (o : Options) : indentLine o line = line := by
  obtain ⟨c,rest,rfl,hc⟩ := h.head
  exact indentLine_cons o hc rest

theorem dropBlankEnd_cons (h : line ≠ []) (lines : List Line) :
    dropBlankEnd (line :: lines) = line :: dropBlankEnd lines := by
  have hline : line.isEmpty = false := by simpa using h
  unfold dropBlankEnd
  rw [List.reverse_cons,List.dropWhile_append]
  split
  · rename_i he
    rw [List.isEmpty_iff] at he
    simp [he,hline]
  · simp

theorem squeeze_cons (h : line ≠ []) (afterBlank : Bool) (lines : List Line) :
    squeeze afterBlank (line :: lines) = line :: squeeze false lines := by
  have hline : line.isEmpty = false := by simpa using h
  rw [squeeze,hline]; rfl

theorem keptLines_cons (h : IsNeat line) : keptLines (line ++ '\n' :: text) =
    line :: dropBlankEnd (squeeze false ((Text.splitLines text).map Text.trimEnd)) := by
  rw [keptLines,Text.splitLines_cons h.ends,List.map_cons,h.trimmed,squeeze_cons h.ne_nil,
    dropBlankEnd_cons h.ne_nil]

def StartsFull (text : List Char) : Prop :=
  ∃ first rest, (Text.splitLines text).map Text.trimEnd = first :: rest ∧ first ≠ []

theorem keptLines_of_full (h : StartsFull text) : ∃ first rest, keptLines text = first :: rest ∧
    dropBlankEnd (squeeze false ((Text.splitLines text).map Text.trimEnd)) = keptLines text := by
  obtain ⟨first,rest,hlines,hne⟩ := h
  refine ⟨first,dropBlankEnd (squeeze false rest),?_,?_⟩
  · rw [keptLines,hlines,squeeze_cons hne,dropBlankEnd_cons hne]
  · rw [keptLines,hlines,squeeze_cons hne,squeeze_cons hne]

theorem basicChars?_cons (h : IsNeat line) (ht : StartsFull text) :
    basicChars? o (line ++ '\n' :: text) = (basicChars? o text).map (line ++ '\n' :: ·) := by
  obtain ⟨first,rest,hkept,hfull⟩ := keptLines_of_full ht
  unfold basicChars?
  rw [keptLines_cons h,hfull]
  simp only [hkept,dividesByZero,List.isEmpty_cons]
  split
  · rfl
  · simp [h.indentLine,joinWithEnds]

theorem startsFull_of_head {c : Char} (hb : Text.isBlank c = false) (he : Text.isLineEnd c = false)
    (rest : List Char) : StartsFull (c :: rest) := by
  have hr : c ≠ '\r' := by rintro rfl; exact absurd he (by decide)
  have htrim : ∀ cs, Text.trimEnd (c :: cs) ≠ [] := by
    intro cs
    rw [Text.trimEnd]
    split <;> simp [hb]
  have hsplit : ∃ first others, Text.splitLines (c :: rest) = (c :: first) :: others := by
    rw [Text.splitLines]
    · rw [if_neg (by simp [he])]
      split <;> exact ⟨_,_,rfl⟩
    · rintro _ rfl; exact absurd rfl hr
  obtain ⟨first,others,hs⟩ := hsplit
  exact ⟨_,_,by rw [hs,List.map_cons],htrim first⟩

end Lines

theorem dividesByZero_eq_true {o : Options} {lines : List Line} :
    dividesByZero o lines = true ↔ (o.useTabs = true ∧ o.tabWidth = 0) ∧ lines ≠ [] := by
  simp [dividesByZero]

theorem basic?_eq_none_iff {o : Options} {text : String} :
    basic? o text = none ↔ (o.useTabs = true ∧ o.tabWidth = 0) ∧ keptLines text.toList ≠ [] := by
  rw [← dividesByZero_eq_true,basic?,Option.map_eq_none_iff,basicChars?]
  split <;> simp_all

theorem basic?_eq_some_iff {o : Options} {text formatted : String} :
    basic? o text = some formatted ↔
    dividesByZero o (keptLines text.toList) = false ∧
      formatted.toList = joinWithEnds ((keptLines text.toList).map (indentLine o)) := by
  rw [basic?,basicChars?]
  split
  · simp_all
  · rename_i hd
    rw [Option.map_some,Option.some.injEq,Bool.eq_false_iff]
    exact ⟨fun h => ⟨hd,h ▸ String.toList_ofList⟩,fun h => h.2 ▸ String.ofList_toList⟩

/-- Tabs are counted out wherever they have a width. -/
theorem exists_basic {o : Options} (h : o.useTabs = false ∨ o.tabWidth ≠ 0) (text : String) :
    ∃ formatted, basic? o text = some formatted := by
  refine Option.ne_none_iff_exists'.1 fun hnone => ?_
  obtain ⟨⟨htabs,hwidth⟩,-⟩ := basic?_eq_none_iff.1 hnone
  exact h.elim (by simp [htabs]) (absurd hwidth)

/-- The built-in formatter alone. -/
theorem format_basic (env : Environment) (o : Options) (disk : Disk) (text : String) :
    Formatter.format env o [.basic] disk text =
      match basic? o text with
      | some formatted => .ok formatted
      | none => .error .zeroTabWidth := by
  dsimp only [Formatter.format,List.foldlM,Tool.format]
  cases basic? o text <;> rfl

end Format

end OperationHooks
