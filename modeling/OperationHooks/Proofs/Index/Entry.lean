import Mathlib.Data.List.Chain
import OperationHooks.Index.Entry
/-!
The order of index entries is linear, so sorted entries do not depend on the order they came in:
they are the one arrangement of the entries in which each statement may stand in front of the next.
-/
set_option autoImplicit false

namespace OperationHooks.Index

namespace SortKey

theorem lessOrEqual_iff (a b : SortKey) : a.lessOrEqual b = true ↔
    a.length < b.length ∨ a.length = b.length ∧
      (a.lowered < b.lowered ∨ a.lowered = b.lowered ∧ a.text ≤ b.text) := by
  unfold lessOrEqual
  by_cases hl : a.length = b.length
  · by_cases hw : a.lowered = b.lowered
    · simp [hl,hw]
    · simp [hl,hw]
  · simp [hl]

theorem lessOrEqual_trans {a b c : SortKey} (h : a.lessOrEqual b = true)
    (h' : b.lessOrEqual c = true) :
    a.lessOrEqual c = true := by
  rw [lessOrEqual_iff] at *
  rcases h with h | ⟨e,h⟩ <;> rcases h' with h' | ⟨e',h'⟩
  · exact .inl (Nat.lt_trans h h')
  · exact .inl (e' ▸ h)
  · exact .inl (e ▸ h')
  · refine .inr ⟨e.trans e',?_⟩
    rcases h with h | ⟨f,h⟩ <;> rcases h' with h' | ⟨f',h'⟩
    · exact .inl (Std.lt_trans h h')
    · exact .inl (f' ▸ h)
    · exact .inl (f ▸ h')
    · exact .inr ⟨f.trans f',Std.le_trans h h'⟩

theorem lessOrEqual_total (a b : SortKey) : (a.lessOrEqual b || b.lessOrEqual a) = true := by
  rw [Bool.or_eq_true,lessOrEqual_iff,lessOrEqual_iff]
  rcases Nat.lt_trichotomy a.length b.length with h | h | h
  · exact .inl (.inl h)
  · by_cases hw : a.lowered = b.lowered
    · rcases (Std.le_total : a.text ≤ b.text ∨ b.text ≤ a.text) with ht | ht
      · exact .inl (.inr ⟨h,.inr ⟨hw,ht⟩⟩)
      · exact .inr (.inr ⟨h.symm,.inr ⟨hw.symm,ht⟩⟩)
    · rcases (Std.le_total : a.lowered ≤ b.lowered ∨ b.lowered ≤ a.lowered) with hl | hl
      · exact .inl (.inr ⟨h,.inl (Std.lt_of_le_of_ne hl hw)⟩)
      · exact .inr (.inr ⟨h.symm,.inl (Std.lt_of_le_of_ne hl (Ne.symm hw))⟩)
  · exact .inr (.inl h)

theorem text_eq_of_lessOrEqual {a b : SortKey} (h : a.lessOrEqual b = true)
    (h' : b.lessOrEqual a = true) :
    a.text = b.text := by
  rw [lessOrEqual_iff] at *
  rcases h with h | ⟨e,h⟩ <;> rcases h' with h' | ⟨e',h'⟩
  · omega
  · omega
  · omega
  · rcases h with h | ⟨f,h⟩ <;> rcases h' with h' | ⟨f',h'⟩
    · exact absurd (Std.lt_trans h h') Std.lt_irrefl
    · rw [f'] at h; exact absurd h Std.lt_irrefl
    · rw [f] at h'; exact absurd h' Std.lt_irrefl
    · exact Std.le_antisymm h h'

end SortKey

theorem statement_injective {a b : String} (h : statement a = statement b) : a = b :=
  (String.append_right_inj _).1 ((String.append_left_inj _).1 h)

theorem precedes_trans (a b c : String) (h : precedes a b = true) (h' : precedes b c = true) :
    precedes a c = true := SortKey.lessOrEqual_trans h h'

theorem precedes_total (a b : String) : (precedes a b || precedes b a) = true :=
  SortKey.lessOrEqual_total _ _

theorem precedes_antisymm {a b : String} (h : precedes a b = true)
    (h' : precedes b a = true) : a = b :=
  statement_injective (SortKey.text_eq_of_lessOrEqual h h')

theorem sortEntries_perm (entries : List String) : (sortEntries entries).Perm entries :=
  List.mergeSort_perm _ _

theorem pairwise_sortEntries (entries : List String) :
    (sortEntries entries).Pairwise (precedes · ·) :=
  List.pairwise_mergeSort precedes_trans precedes_total _

def StandsBefore (a b : String) : Prop :=
  (statement a).length < (statement b).length ∨
    (statement a).length = (statement b).length ∧
      (Text.lower (statement a) < Text.lower (statement b) ∨
        Text.lower (statement a) = Text.lower (statement b) ∧ statement a ≤ statement b)

theorem precedes_iff (a b : String) : precedes a b = true ↔ StandsBefore a b :=
  SortKey.lessOrEqual_iff _ _

instance : Trans StandsBefore StandsBefore StandsBefore where
  trans {a b c} h h' :=
    (precedes_iff a c).1 (precedes_trans a b c ((precedes_iff a b).2 h) ((precedes_iff b c).2 h'))

theorem standsBefore_antisymm {a b : String} (h : StandsBefore a b)
    (h' : StandsBefore b a) : a = b :=
  precedes_antisymm ((precedes_iff a b).2 h) ((precedes_iff b a).2 h')

theorem isChain_sortEntries (entries : List String) : (sortEntries entries).IsChain StandsBefore :=
  ((pairwise_sortEntries entries).imp fun h => (precedes_iff _ _).1 h).isChain

theorem eq_sortEntries {entries sorted : List String} (hp : sorted.Perm entries)
    (hc : sorted.IsChain StandsBefore) :
    sorted = sortEntries entries :=
  List.Perm.eq_of_pairwise (fun _ _ _ _ h h' => standsBefore_antisymm h h') hc.pairwise
    (isChain_sortEntries entries).pairwise (hp.trans (sortEntries_perm entries).symm)

/-- Entries are sorted alike in whatever order they came. -/
theorem sortEntries_congr {entries entries' : List String} (h : entries.Perm entries') :
    sortEntries entries = sortEntries entries' :=
  eq_sortEntries ((sortEntries_perm entries).trans h) (isChain_sortEntries entries)

theorem perm_of_sortEntries_eq {entries entries' : List String}
    (h : sortEntries entries = sortEntries entries') :
    entries.Perm entries' :=
  (sortEntries_perm entries).symm.trans (h ▸ sortEntries_perm entries')

/-- Sorting arranges the entries so that each may stand in front of the next. No other arrangement
of them is like that, and only other entries are sorted in another way. -/
theorem sorted_iff_arranged (entries : List String) :
    (sortEntries entries).Perm entries ∧ (sortEntries entries).IsChain StandsBefore ∧
      (∀ sorted : List String, sorted = sortEntries entries ↔
        sorted.Perm entries ∧ sorted.IsChain StandsBefore) ∧
      ∀ entries' : List String, sortEntries entries' = sortEntries entries ↔
      entries'.Perm entries := by
  refine ⟨sortEntries_perm entries,isChain_sortEntries entries,
    fun sorted => ⟨?_,fun h => eq_sortEntries h.1 h.2⟩,
    fun entries' => ⟨perm_of_sortEntries_eq,sortEntries_congr⟩⟩
  rintro rfl
  exact ⟨sortEntries_perm entries,isChain_sortEntries entries⟩

-- Three names that are one in lower case: K, k and the sign for kelvin.
example : precedes "K" "k" = true ∧ precedes "k" "\u212A" = true ∧
    Text.lower "K" = Text.lower "\u212A" := by decide +kernel

end OperationHooks.Index
