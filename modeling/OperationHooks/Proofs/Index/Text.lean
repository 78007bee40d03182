import OperationHooks.Proofs.Format.Lines
import OperationHooks.Proofs.Index.Registration

set_option autoImplicit false

namespace OperationHooks.Index
open Format

theorem toList_textOf (nested : Bool) (entries : List String) :
    (textOf nested entries).toList = joinWithEnds ((linesOf nested entries).map String.toList) := by
  simp [textOf,joinWithEnds]

theorem toList_statement (baseName : String) : (statement baseName).toList =
    'e' :: ("xport * from './".toList ++ baseName.toList ++ "';".toList) := by
  have hstatement : statement baseName = "e" ++ "xport * from './" ++ baseName ++ "';" := rfl
  rw [hstatement,String.toList_append,String.toList_append,String.toList_append,List.append_assoc,
    List.append_assoc,List.append_assoc,(by decide : "e".toList = ['e'])]
  rfl

theorem sortEntries_ne_nil {entries : List String} (h : entries ≠ []) :
    sortEntries entries ≠ [] := by
  intro he
  exact h (List.Perm.eq_nil (he ▸ (sortEntries_perm entries).symm))

theorem textOf_true {entries : List String} (h : entries ≠ []) :
    textOf true entries = nestedStatement ++ "\n" ++ textOf false entries := by
  obtain ⟨first,rest,hs⟩ := List.exists_cons_of_ne_nil (sortEntries_ne_nil h)
  apply String.toList_injective
  simp only [toList_textOf,String.toList_append,linesOf,hs,if_true,List.map_cons,
    Bool.false_eq_true,if_false]
  simp [joinWithEnds]

theorem isNeat_nested : IsNeat nestedStatement.toList := by
  have hends : (nestedStatement.toList.all fun c => !Text.isLineEnd c) = true := by decide
  refine ⟨fun c hc => ?_,by decide,'e',"xport * from './hooks';".toList,by decide,by decide⟩
  simpa using List.all_eq_true.1 hends c hc

/-- Two texts are the same, or one has the line for nested hooks in front of the other. -/
def SameAside (a b : String) : Prop :=
  a = b ∨ a = nestedStatement ++ "\n" ++ b ∨ b = nestedStatement ++ "\n" ++ a

instance (a b : String) : Decidable (SameAside a b) := inferInstanceAs (Decidable (_ ∨ _))

def KeepsApart (f : String → String) : Prop := ∀ entries, entries ≠ [] →
  f (textOf true entries) = nestedStatement ++ "\n" ++ f (textOf false entries)

theorem sameAside_textOf {entries : List String} (h : entries ≠ []) (nested nested' : Bool) :
    SameAside (textOf nested entries) (textOf nested' entries) := by
  cases nested <;> cases nested'
  · exact .inl rfl
  · exact .inr (.inr (textOf_true h))
  · exact .inr (.inl (textOf_true h))
  · exact .inl rfl

theorem KeepsApart.sameAside {f : String → String} (hf : KeepsApart f) {entries : List String}
    (h : entries ≠ []) (nested nested' : Bool) :
    SameAside (f (textOf nested entries)) (f (textOf nested' entries)) := by
  cases nested <;> cases nested'
  · exact .inl rfl
  · exact .inr (.inr (hf entries h))
  · exact .inr (.inl (hf entries h))
  · exact .inl rfl

theorem startsFull_textOf {entries : List String} (h : entries ≠ []) :
    StartsFull (textOf false entries).toList := by
  obtain ⟨first,rest,hs⟩ := List.exists_cons_of_ne_nil (sortEntries_ne_nil h)
  have hhead : ∃ cs, (textOf false entries).toList = 'e' :: cs := by
    rw [toList_textOf,linesOf,hs]
    simp only [Bool.false_eq_true,if_false,List.map_cons,toList_statement]
    cases rest with
    | nil => exact ⟨_,rfl⟩
    | cons next rest => exact ⟨_,rfl⟩
  obtain ⟨cs,hcs⟩ := hhead
  rw [hcs]
  exact startsFull_of_head (by decide) (by decide) cs

theorem keepsApart_basic {o : Options} {f : String → String}
    (hf : ∀ text, basic? o text = some (f text)) :
    KeepsApart f := by
  intro entries h
  have hchars : ∀ text, basicChars? o text.toList = some (f text).toList := fun text => by
    obtain ⟨cs,hcs,he⟩ := Option.map_eq_some_iff.1 (hf text)
    rw [hcs,← he,String.toList_ofList]
  have htext :
      (textOf true entries).toList =
      nestedStatement.toList ++ '\n' :: (textOf false entries).toList := by
    rw [textOf_true h]; simp
  have hcons := basicChars?_cons (o := o) isNeat_nested (startsFull_textOf h)
  rw [← htext,hchars,hchars] at hcons
  apply String.toList_injective
  rw [Option.some.inj hcons]
  simp

/-- A base name that breaks no line gives a line that is in order. -/
theorem isNeat_statement {baseName : String} (h : ∀ c ∈ baseName.toList, Text.isLineEnd c = false) :
    IsNeat (statement baseName).toList := by
  refine ⟨?_,?_,'e',_,toList_statement baseName,by decide⟩
  · have hlead : ("xport * from './".toList.all fun c => !Text.isLineEnd c) = true := by decide
    have hclose : ("';".toList.all fun c => !Text.isLineEnd c) = true := by decide
    rw [toList_statement,List.forall_mem_cons]
    refine ⟨by decide,fun c hc => ?_⟩
    rcases List.mem_append.1 hc with hc | hc
    · rcases List.mem_append.1 hc with hc | hc
      · simpa using List.all_eq_true.1 hlead c hc
      · exact h c hc
    · simpa using List.all_eq_true.1 hclose c hc
  · have hclose : "';".toList = ['\''] ++ [';'] := by decide
    rw [toList_statement,hclose,← List.append_assoc,← List.cons_append]
    exact Text.trimEnd_concat (by decide)

theorem isNeat_linesOf {nested : Bool} {entries : List String}
    (h : ∀ baseName ∈ entries, ∀ c ∈ baseName.toList, Text.isLineEnd c = false) :
    ∀ line ∈ (linesOf nested entries).map String.toList, IsNeat line := by
  have hstatements : ∀ line ∈ (sortEntries entries).map statement, IsNeat line.toList :=
    fun line hl => by
    obtain ⟨baseName,hb,rfl⟩ := List.mem_map.1 hl
    exact isNeat_statement (h baseName ((sortEntries_perm entries).mem_iff.1 hb))
  refine List.forall_mem_map.2 ?_
  unfold linesOf
  cases nested with
  | false => exact hstatements
  | true => exact List.forall_mem_cons.2 ⟨isNeat_nested,hstatements⟩

theorem linesOf_ne_nil {entries : List String} (hne : entries ≠ []) (nested : Bool) :
    (linesOf nested entries).map String.toList ≠ [] := by
  have hs := sortEntries_ne_nil hne
  unfold linesOf
  cases nested <;> simp [hs]

/-- An index whose base names break no line is written as it is. -/
theorem basic_textOf {o : Options} {nested : Bool} {entries : List String} {text : String}
    (h : ∀ baseName ∈ entries, ∀ c ∈ baseName.toList, Text.isLineEnd c = false)
    (ht : basic? o (textOf nested entries) = some text) : text = textOf nested entries :=
  basic_of_neat (isNeat_linesOf h) (toList_textOf nested entries) ht

theorem basic_textOf_eq {o : Options} {nested : Bool} {entries : List String}
    (htabs : o.useTabs = false ∨ o.tabWidth ≠ 0)
    (h : ∀ baseName ∈ entries, ∀ c ∈ baseName.toList, Text.isLineEnd c = false) :
    basic? o (textOf nested entries) = some (textOf nested entries) := by
  obtain ⟨text,ht⟩ := exists_basic htabs (textOf nested entries)
  rw [ht,basic_textOf h ht]

end OperationHooks.Index
