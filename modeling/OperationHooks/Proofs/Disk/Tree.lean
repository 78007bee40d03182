import Mathlib.Data.List.Basic
import OperationHooks.Disk.Tree

set_option autoImplicit false

namespace OperationHooks.Disk.Tree

theorem isBelow_iff {p q : Place} : isBelow p q = true ↔ p <+: q ∧ p ≠ q := by
  simp [isBelow]

theorem not_isBelow_nil (p : Place) : isBelow p [] = false := by
  cases p <;> simp [isBelow]

theorem not_isBelow_self (p : Place) : isBelow p p = false := by
  simp [isBelow]

theorem isBelow_of_isBelow_of_prefix {p q r : Place} (h : isBelow p q = true) (hq : q <+: r) :
    isBelow p r = true := by
  obtain ⟨hp,hne⟩ := isBelow_iff.1 h
  refine isBelow_iff.2 ⟨hp.trans hq,?_⟩
  rintro rfl
  exact hne (hp.eq_of_length_le hq.length_le)

theorem isBelow_of_prefix_of_isBelow {p q r : Place} (hp : p <+: q) (h : isBelow q r = true) :
    isBelow p r = true := by
  obtain ⟨hq,hne⟩ := isBelow_iff.1 h
  refine isBelow_iff.2 ⟨hp.trans hq,?_⟩
  rintro rfl
  exact hne (hq.eq_of_length_le hp.length_le)

theorem isBelow_concat (p : Place) (name : String) : isBelow p (p ++ [name]) = true := by
  simp [isBelow]

theorem lookup_filter {α : Type} (keep : Place → Bool) (entries : List (Place × α)) (q : Place) :
    (entries.filter fun x => keep x.1).lookup q = if keep q then entries.lookup q else none := by
  induction entries with
  | nil => simp
  | cons x rest ih =>
    obtain ⟨p,a⟩ := x
    by_cases hp : keep p
    · by_cases hq : q = p
      · subst hq; simp [hp]
      · have hb : (q == p) = false := by simp [hq]
        simp [hp,List.lookup_cons,hb,ih]
    · by_cases hq : q = p
      · subst hq; simp [hp,ih]
      · have hb : (q == p) = false := by simp [hq]
        simp [hp,List.lookup_cons,hb,ih]

@[simp] theorem get?_nil (t : Tree) : t.get? [] = some .directory := rfl

theorem get?_of_ne_nil {t : Tree} {p : Place} (h : p ≠ []) : t.get? p = t.entries.lookup p := by
  simp [get?,h]

theorem ne_nil_of_get? {t : Tree} {p : Place} (h : t.get? p = none) : p ≠ [] := by
  rintro rfl; simp at h

theorem get?_put {t : Tree} {p : Place} (hp : p ≠ []) (e : Entry) (q : Place) :
    (t.put p e).get? q = if q = p then some e else t.get? q := by
  by_cases hq : q = []
  · subst hq; simp [Ne.symm hp]
  · rw [get?_of_ne_nil hq,get?_of_ne_nil hq]
    by_cases he : q = p
    · subst he; simp [put]
    · have hb : (q == p) = false := by simp [he]
      have hf := lookup_filter (fun r => r != p) t.entries q
      simp only [put,List.lookup_cons,hb,hf]
      simp [he]

theorem get?_put_self {t : Tree} {p : Place} (hp : p ≠ []) (e : Entry) :
    (t.put p e).get? p = some e := by simp [get?_put hp]

theorem get?_put_of_ne {t : Tree} {p q : Place} (hp : p ≠ []) (e : Entry) (h : q ≠ p) :
    (t.put p e).get? q = t.get? q := by simp [get?_put hp,h]

theorem get?_remove {t : Tree} {p : Place} (hp : p ≠ []) (q : Place) :
    (t.remove p).get? q = if q = p then none else t.get? q := by
  by_cases hq : q = []
  · subst hq; simp [Ne.symm hp]
  · rw [get?_of_ne_nil hq,get?_of_ne_nil hq]
    have hf := lookup_filter (fun r => r != p) t.entries q
    simp only [remove,hf]
    by_cases he : q = p <;> simp [he]

theorem get?_remove_cases (t : Tree) (c q : Place) :
    (t.remove c).get? q = t.get? q ∨ q = c ∧ (t.remove c).get? q = none := by
  by_cases hq : q = []
  · subst hq; exact .inl rfl
  · have hf := lookup_filter (fun r => r != c) t.entries q
    rw [get?_of_ne_nil hq,get?_of_ne_nil hq,remove,hf]
    by_cases hc : q = c <;> simp [hc]

theorem get?_clear (t : Tree) (p q : Place) :
    (t.clear p).get? q = if isBelow p q then none else t.get? q := by
  by_cases hq : q = []
  · subst hq; simp [not_isBelow_nil]
  · rw [get?_of_ne_nil hq,get?_of_ne_nil hq]
    have hf := lookup_filter (fun r => !isBelow p r) t.entries q
    simp only [clear,hf]
    cases isBelow p q <;> simp

/-- Where no entry is listed below a place, none is there. -/
theorem get?_of_entries {t : Tree} {p q : Place} (h : ∀ x ∈ t.entries, isBelow p x.1 = false)
    (hq : isBelow p q = true) : t.get? q = none := by
  have hne : q ≠ [] := by rintro rfl; simp [not_isBelow_nil] at hq
  rw [get?_of_ne_nil hne,List.lookup_eq_none_iff]
  intro x hx
  refine bne_iff_ne.2 fun he => ?_
  rw [he,h x hx] at hq
  cases hq

def Same (t u : Tree) : Prop := ∀ q, u.get? q = t.get? q

def Thinned (t u : Tree) : Prop := ∀ q, u.get? q = t.get? q ∨ u.get? q = none

/-- Some directories have come where nothing was; all else is as it was. -/
def Grown (t u : Tree) : Prop :=
  ∀ q, u.get? q = t.get? q ∨ (t.get? q = none ∧ u.get? q = some .directory)

theorem Same.refl (t : Tree) : t.Same t := fun _ => rfl

theorem Same.symm {t u : Tree} (h : t.Same u) : u.Same t := fun q => (h q).symm

theorem Same.trans {t u v : Tree} (h : t.Same u) (h' : u.Same v) : t.Same v :=
  fun q => (h' q).trans (h q)

theorem Same.grown {t u : Tree} (h : t.Same u) : t.Grown u := fun q => .inl (h q)

theorem Grown.refl (t : Tree) : t.Grown t := (Same.refl t).grown

theorem Grown.trans {t u v : Tree} (h : t.Grown u) (h' : u.Grown v) : t.Grown v := by
  intro q
  rcases h q with e | ⟨e,e'⟩ <;> rcases h' q with f | ⟨f,f'⟩
  · exact .inl (f.trans e)
  · exact .inr ⟨e ▸ f,f'⟩
  · exact .inr ⟨e,f.trans e'⟩
  · rw [e'] at f; cases f

theorem grown_put {t : Tree} {p : Place} (h : t.get? p = none) : t.Grown (t.put p .directory) := by
  have hp : p ≠ [] := ne_nil_of_get? h
  intro q
  by_cases he : q = p
  · subst he; exact .inr ⟨h,get?_put_self hp _⟩
  · exact .inl (get?_put_of_ne hp _ he)

theorem thinned_clear (t : Tree) (p : Place) : t.Thinned (t.clear p) := by
  intro q
  rw [get?_clear]
  split
  · exact .inr rfl
  · exact .inl rfl

end OperationHooks.Disk.Tree
