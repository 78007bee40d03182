import Mathlib.Data.List.Basic
import OperationHooks.Glob
/-!
Which names the pieces of a pattern match. What is kept side by side while a name is read are ends
of one pattern, so that two of one length are the same end and nothing is lost when one of them is
dropped.
-/
set_option autoImplicit false

namespace OperationHooks.Glob

/-- Pieces take a text, each its share of it, from the first to the last. -/
inductive Matches : List Piece → List Char → Prop
  | nil : Matches [] []
  | skip {rest : List Piece} {cs : List Char} : Matches rest cs → Matches (.anyText :: rest) cs
  | more {rest : List Piece} {c : Char} {cs : List Char} :
      Matches (.anyText :: rest) cs → Matches (.anyText :: rest) (c :: cs)
  | one {piece : Piece} {rest : List Piece} {c : Char} {cs : List Char} : piece ≠ .anyText →
      piece.holds c = true → Matches rest cs → Matches (piece :: rest) (c :: cs)

section Steps

variable {pieces rest open' : List Piece} {piece : Piece} {c : Char} {cs : List Char}

theorem openings_of_ne (h : piece ≠ .anyText) : openings (piece :: rest) = [piece :: rest] := by
  cases piece <;> first | rfl | exact absurd rfl h

theorem behind_of_ne (h : piece ≠ .anyText) :
    behind c (piece :: rest) = if piece.holds c then openings rest else [] := by
  cases piece <;> first | rfl | exact absurd rfl h

theorem mem_openings_self (pieces : List Piece) : pieces ∈ openings pieces := by
  cases pieces with
  | nil => exact List.mem_singleton_self _
  | cons piece rest => cases piece <;> simp [openings]

theorem suffix_of_mem_openings (h : open' ∈ openings pieces) : open' <:+ pieces := by
  induction pieces with
  | nil => exact List.mem_singleton.1 h ▸ List.suffix_refl _
  | cons piece rest ih =>
    by_cases hp : piece = .anyText
    · subst hp
      rcases List.mem_cons.1 h with rfl | h
      · exact List.suffix_refl _
      · exact (ih h).trans (List.suffix_cons _ _)
    · rw [openings_of_ne hp] at h
      exact List.mem_singleton.1 h ▸ List.suffix_refl _

theorem suffix_of_mem_behind (h : open' ∈ behind c pieces) : open' <:+ pieces := by
  cases pieces with
  | nil => cases h
  | cons piece rest =>
    by_cases hp : piece = .anyText
    · subst hp
      exact suffix_of_mem_openings h
    · rw [behind_of_ne hp] at h
      split at h
      · exact (suffix_of_mem_openings h).trans (List.suffix_cons _ _)
      · cases h

theorem openings_subset (h : open' ∈ openings pieces) : openings open' ⊆ openings pieces := by
  induction pieces with
  | nil =>
    rw [List.mem_singleton.1 h]
    exact List.Subset.refl _
  | cons piece rest ih =>
    by_cases hp : piece = .anyText
    · subst hp
      rcases List.mem_cons.1 h with rfl | h
      · exact List.Subset.refl _
      · exact List.Subset.trans (ih h) (List.subset_cons_self _ _)
    · rw [openings_of_ne hp] at h
      rw [List.mem_singleton.1 h]
      exact List.Subset.refl _

theorem openings_subset_of_mem_behind (h : open' ∈ behind c pieces) :
    openings open' ⊆ behind c pieces := by
  cases pieces with
  | nil => cases h
  | cons piece rest =>
    by_cases hp : piece = .anyText
    · subst hp
      exact openings_subset h
    · rw [behind_of_ne hp] at h ⊢
      by_cases hc : piece.holds c = true
      · rw [if_pos hc] at h ⊢
        exact openings_subset h
      · rw [if_neg hc] at h
        cases h

theorem Matches.of_opening (h : open' ∈ openings pieces) (hm : Matches open' cs) :
    Matches pieces cs := by
  induction pieces with
  | nil => rwa [List.mem_singleton.1 h] at hm
  | cons piece rest ih =>
    by_cases hp : piece = .anyText
    · subst hp
      rcases List.mem_cons.1 h with rfl | h
      · exact hm
      · exact .skip (ih h)
    · rw [openings_of_ne hp] at h
      rwa [List.mem_singleton.1 h] at hm

theorem Matches.nil_mem_openings (h : Matches pieces []) : [] ∈ openings pieces := by
  induction pieces with
  | nil => exact List.mem_singleton_self _
  | cons piece rest ih =>
    cases h with
    | skip h => exact List.mem_cons_of_mem _ (ih h)

theorem Matches.of_behind (h : open' ∈ behind c pieces) (hm : Matches open' cs) :
    Matches pieces (c :: cs) := by
  cases pieces with
  | nil => cases h
  | cons piece rest =>
    by_cases hp : piece = .anyText
    · subst hp
      exact .more (hm.of_opening h)
    · rw [behind_of_ne hp] at h
      split at h
      · exact .one hp ‹_› (hm.of_opening h)
      · cases h

/-- Where pieces take a character, some of what stands open takes it, and what is left takes the
rest. -/
theorem Matches.exists_behind (h : Matches pieces (c :: cs)) :
    ∃ first ∈ openings pieces, ∃ left ∈ behind c first, Matches left cs := by
  induction pieces with
  | nil => cases h
  | cons piece rest ih =>
    cases h with
    | skip h =>
      obtain ⟨first,hfirst,hleft⟩ := ih h
      exact ⟨first,List.mem_cons_of_mem _ hfirst,hleft⟩
    | more h => exact ⟨_,mem_openings_self _,_,mem_openings_self _,h⟩
    | one hp hc h =>
      refine ⟨_,mem_openings_self _,rest,?_,h⟩
      rw [behind_of_ne hp,if_pos hc]
      exact mem_openings_self rest

end Steps

section Sides

variable {pieces : List Piece} {left : List (List Piece)} {c : Char} {cs : List Char}

structure Ends (pieces : List Piece) (left : List (List Piece)) : Prop where
  suffix : ∀ p ∈ left, p <:+ pieces
  opened : ∀ p ∈ left, openings p ⊆ left

theorem ends_openings (pieces : List Piece) : Ends pieces (openings pieces) :=
  ⟨fun _ => suffix_of_mem_openings,fun _ => openings_subset⟩

def advance (c : Char) (left : List (List Piece)) : List (List Piece) :=
  (left.flatMap (behind c)).eraseDupsBy fun p q => p.length == q.length

theorem mem_eraseDupsBy {α : Type} {r : α → α → Bool} {xs : List α}
    (hr : ∀ x ∈ xs, ∀ y ∈ xs, r x y = true ↔ x = y) {x : α} : x ∈ xs.eraseDupsBy r ↔ x ∈ xs := by
  have hloop : ∀ rest seen : List α, (∀ y ∈ rest, y ∈ xs) → (∀ y ∈ seen, y ∈ xs) →
      (x ∈ List.eraseDupsBy.loop r rest seen ↔ x ∈ rest ∨ x ∈ seen) := by
    intro rest
    induction rest with
    | nil => intro seen _ _; simp [List.eraseDupsBy.loop]
    | cons y rest ih =>
      intro seen hrest hseen
      obtain ⟨hy,hrest⟩ := List.forall_mem_cons.1 hrest
      rw [List.eraseDupsBy.loop]
      cases hany : seen.any (r y) with
      | true =>
        obtain ⟨z,hz,hyz⟩ := List.any_eq_true.1 hany
        obtain rfl := (hr y hy z (hseen z hz)).1 hyz
        rw [ih seen hrest hseen,List.mem_cons]
        constructor
        · rintro (h | h)
          · exact .inl (.inr h)
          · exact .inr h
        · rintro ((rfl | h) | h)
          · exact .inr hz
          · exact .inl h
          · exact .inr h
      | false =>
        rw [ih (y :: seen) hrest (List.forall_mem_cons.2 ⟨hy,hseen⟩),List.mem_cons,List.mem_cons]
        constructor
        · rintro (h | h | h)
          · exact .inl (.inr h)
          · exact .inl (.inl h)
          · exact .inr h
        · rintro ((h | h) | h)
          · exact .inr (.inl h)
          · exact .inl h
          · exact .inr (.inr h)
  simpa [List.eraseDupsBy] using hloop xs [] (fun _ h => h) (by simp)

theorem Ends.mem_advance (h : Ends pieces left) {p : List Piece} :
    p ∈ advance c left ↔ ∃ first ∈ left, p ∈ behind c first := by
  have hsuffix : ∀ p ∈ left.flatMap (behind c), p <:+ pieces := fun p hp => by
    obtain ⟨first,hfirst,hp⟩ := List.mem_flatMap.1 hp
    exact (suffix_of_mem_behind hp).trans (h.suffix first hfirst)
  rw [advance,mem_eraseDupsBy fun p hp q hq => ?_,List.mem_flatMap]
  rw [beq_iff_eq]
  refine ⟨fun he => ?_,fun he => he ▸ rfl⟩
  exact (List.suffix_of_suffix_length_le (hsuffix p hp) (hsuffix q hq)
    (Nat.le_of_eq he)).eq_of_length he

theorem Ends.advance (h : Ends pieces left) (c : Char) : Ends pieces (Glob.advance c left) := by
  refine ⟨fun p hp => ?_,fun p hp q hq => ?_⟩ <;> obtain ⟨first,hfirst,hp⟩ := h.mem_advance.1 hp
  · exact (suffix_of_mem_behind hp).trans (h.suffix first hfirst)
  · exact h.mem_advance.2 ⟨first,hfirst,openings_subset_of_mem_behind hp hq⟩

theorem Ends.nil_mem_foldl (h : Ends pieces left) (cs : List Char) :
    [] ∈ cs.foldl (fun left c => Glob.advance c left) left ↔ ∃ p ∈ left, Matches p cs := by
  induction cs generalizing left with
  | nil =>
    constructor
    · exact fun hm => ⟨[],hm,.nil⟩
    · rintro ⟨p,hp,hm⟩
      exact h.opened p hp hm.nil_mem_openings
  | cons c cs ih =>
    rw [List.foldl_cons,ih (h.advance c)]
    constructor
    · rintro ⟨p,hp,hm⟩
      obtain ⟨first,hfirst,hp⟩ := h.mem_advance.1 hp
      exact ⟨first,hfirst,hm.of_behind hp⟩
    · rintro ⟨p,hp,hm⟩
      obtain ⟨first,hfirst,rest,hrest,hm⟩ := hm.exists_behind
      exact ⟨rest,h.mem_advance.2 ⟨first,h.opened p hp hfirst,hrest⟩,hm⟩

theorem matchPieces_iff : matchPieces pieces cs = true ↔ Matches pieces cs := by
  have hany : matchPieces pieces cs = true ↔
      [] ∈ cs.foldl (fun left c => Glob.advance c left) (openings pieces) := by
    show List.any _ _ = true ↔ _
    rw [List.any_eq_true]
    constructor
    · rintro ⟨p,hp,he⟩
      rwa [List.isEmpty_iff.1 he] at hp
    · exact fun h => ⟨[],h,rfl⟩
  rw [hany,(ends_openings pieces).nil_mem_foldl]
  constructor
  · rintro ⟨p,hp,hm⟩
    exact hm.of_opening hp
  · exact fun hm => ⟨pieces,mem_openings_self pieces,hm⟩

end Sides

section Plain

variable {cs text : List Char} {name tail : String}

def IsLiteral (cs : List Char) : Prop := '*' ∉ cs ∧ '?' ∉ cs ∧ '[' ∉ cs

theorem piecesFrom_literal (h : IsLiteral cs) : piecesFrom 0 cs = cs.map .char := by
  induction cs with
  | nil => rfl
  | cons c cs ih =>
    obtain ⟨hstar,hmark,hclass⟩ := h
    simp only [List.mem_cons,not_or] at hstar hmark hclass
    rw [piecesFrom,if_neg (Ne.symm hstar.1),if_neg (Ne.symm hmark.1),if_neg (Ne.symm hclass.1),
      ih ⟨hstar.2,hmark.2,hclass.2⟩,List.map_cons]

theorem matches_literal : Matches (cs.map .char) text ↔ text = cs := by
  induction cs generalizing text with
  | nil =>
    constructor
    · intro h
      cases h
      rfl
    · rintro rfl
      exact .nil
  | cons c cs ih =>
    constructor
    · intro h
      cases h with
      | one _ hc h => rw [ih.1 h,beq_iff_eq.1 hc]
    · rintro rfl
      exact .one (by simp) (by simp [Piece.holds]) (ih.2 rfl)

theorem matches_anyText {rest : List Piece} :
    Matches (.anyText :: rest) text ↔ ∃ front back, text = front ++ back ∧ Matches rest back := by
  constructor
  · intro h
    induction text with
    | nil =>
      cases h with
      | skip h => exact ⟨[],[],rfl,h⟩
    | cons c text ih =>
      cases h with
      | skip h => exact ⟨[],_,rfl,h⟩
      | more h =>
        obtain ⟨front,back,rfl,hback⟩ := ih h
        exact ⟨c :: front,back,rfl,hback⟩
      | one hp => exact absurd rfl hp
  · rintro ⟨front,back,rfl,h⟩
    induction front with
    | nil => exact .skip h
    | cons c front ih => exact .more ih

/-- A star in front of a text matches the names that end in it. -/
theorem matchesName_star (h : IsLiteral tail.toList) :
    matchesName ("*" ++ tail) name = true ↔ ∃ stem, name = stem ++ tail := by
  have hpieces : piecesFrom 0 ("*" ++ tail).toList = .anyText :: tail.toList.map .char := by
    have hstar : tail.toList.head? ≠ some '*' := fun he => h.1 (List.mem_of_mem_head? he)
    rw [String.toList_append,(by decide : "*".toList = ['*']),List.singleton_append,piecesFrom,
      if_pos rfl,if_neg hstar,piecesFrom_literal h]
  rw [matchesName,hpieces,matchPieces_iff,matches_anyText]
  constructor
  · rintro ⟨front,back,he,hm⟩
    rw [matches_literal] at hm
    refine ⟨String.ofList front,String.toList_injective ?_⟩
    rw [he,hm,String.toList_append,String.toList_ofList]
  · rintro ⟨stem,rfl⟩
    exact ⟨stem.toList,tail.toList,String.toList_append,matches_literal.2 rfl⟩

example : matchesName "*.ts" "a.b.ts" = true := by decide

end Plain

end OperationHooks.Glob
