import Mathlib.Data.List.Basic
import OperationHooks.Report

set_option autoImplicit false

namespace OperationHooks.Report

theorem pairwise_sortBy {α : Type} (key : α → String) (xs : List α) :
    (xs.mergeSort fun a b => decide (key a ≤ key b)).Pairwise fun a b => key a ≤ key b := by
  have hp : (xs.mergeSort fun a b => decide (key a ≤ key b)).Pairwise fun a b =>
      decide (key a ≤ key b) = true := by
    refine List.pairwise_mergeSort (fun a b c hab hbc => ?_) (fun a b => ?_) xs
    · simp only [decide_eq_true_eq] at *; exact Std.le_trans hab hbc
    · simp only [Bool.or_eq_true,decide_eq_true_eq]; exact Std.le_total
  exact hp.imp fun h => by simpa using h

theorem sortTexts_congr {texts texts' : List String} (h : texts.Perm texts') :
    sortTexts texts = sortTexts texts' :=
  List.Perm.eq_of_pairwise (fun _ _ _ _ hab hba => Std.le_antisymm hab hba) (pairwise_sortBy id _)
    (pairwise_sortBy id _)
      ((List.mergeSort_perm _ _).trans (h.trans (List.mergeSort_perm _ _).symm))

theorem sortOutcomes_congr {outcomes outcomes' : List FileOutcome} (h : outcomes.Perm outcomes')
    (hpath : ∀ a ∈ outcomes, ∀ b ∈ outcomes, a.path = b.path → a = b) :
    sortOutcomes outcomes = sortOutcomes outcomes' := by
  have hperm : (sortOutcomes outcomes).Perm (sortOutcomes outcomes') :=
    (List.mergeSort_perm _ _).trans (h.trans (List.mergeSort_perm _ _).symm)
  refine hperm.eq_of_pairwise (fun a b ha hb hab hba => ?_) (pairwise_sortBy FileOutcome.path _)
    (pairwise_sortBy FileOutcome.path _)
  have ha' := (List.mergeSort_perm _ _).mem_iff.1 ha
  have hb' := (List.mergeSort_perm _ _).mem_iff.1 (hperm.mem_iff.2 hb)
  exact hpath a ha' b hb' (Std.le_antisymm hab hba)

end OperationHooks.Report
