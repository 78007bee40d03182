import Mathlib.Data.List.DropRight
import OperationHooks.Text.Blank

set_option autoImplicit false

namespace OperationHooks.Text

theorem isBlank_of_isLineEnd {c : Char} (h : isLineEnd c = true) : isBlank c = true := by
  simp only [isLineEnd,Bool.or_eq_true,Bool.and_eq_true,decide_eq_true_eq,beq_iff_eq] at h
  simp only [isBlank,Bool.or_eq_true,Bool.and_eq_true,decide_eq_true_eq,beq_iff_eq]
  omega

section Runs

variable {p : Char → Bool} {cs rest : List Char}

/-- A run of characters ends where the text does not go on as one. -/
theorem takeWhile_run (hall : ∀ c ∈ cs, p c = true) (hstop : ∀ c ∈ rest.head?, p c = false) :
    (cs ++ rest).takeWhile p = cs := by
  rw [List.takeWhile_append_of_pos hall]
  cases rest with
  | nil => simp
  | cons c rest => simp [hstop c rfl]

theorem dropWhile_run (hall : ∀ c ∈ cs, p c = true) (hstop : ∀ c ∈ rest.head?, p c = false) :
    (cs ++ rest).dropWhile p = rest := by
  rw [List.dropWhile_append_of_pos hall]
  cases rest with
  | nil => rfl
  | cons c rest => simp [hstop c rfl]

end Runs

theorem splitLines_cons {line : List Char} (h : ∀ c ∈ line, isLineEnd c = false)
    (rest : List Char) :
    splitLines (line ++ '\n' :: rest) = line :: splitLines rest := by
  induction line with
  | nil => rfl
  | cons c cs ih =>
    obtain ⟨hc,hcs⟩ := List.forall_mem_cons.1 h
    have hr : c ≠ '\r' := by rintro rfl; exact absurd hc (by decide)
    rw [List.cons_append,splitLines]
    · rw [if_neg (by simp [hc]),ih hcs]
    · rintro _ rfl; exact absurd rfl hr

theorem isLineEnd_of_mem_splitLines {cs line : List Char} (h : line ∈ splitLines cs)
    {c : Char} (hc : c ∈ line) :
    isLineEnd c = false := by
  induction cs using splitLines.induct generalizing line with
  | case1 => cases h
  | case2 rest ih =>
    rw [splitLines] at h
    rcases List.mem_cons.1 h with rfl | h
    · cases hc
    · exact ih h hc
  | case3 c' rest hr he ih =>
    rw [splitLines,if_pos he] at h
    · rcases List.mem_cons.1 h with rfl | h
      · cases hc
      · exact ih h hc
    · exact hr
  | case4 c' rest hr he hs ih =>
    rw [splitLines,if_neg he,hs] at h
    · obtain rfl := List.mem_singleton.1 h
      obtain rfl := List.mem_singleton.1 hc
      simpa using he
    · exact hr
  | case5 c' rest hr he first others hs ih =>
    rw [splitLines,if_neg he,hs] at h
    · rcases List.mem_cons.1 h with rfl | h
      · rcases List.mem_cons.1 hc with rfl | hc
        · simpa using he
        · exact ih (hs ▸ List.mem_cons_self) hc
      · exact ih (hs ▸ List.mem_cons_of_mem _ h) hc
    · exact hr

theorem trimEnd_append_cons {c : Char} (h : isBlank c = false) (front rest : List Char) :
    trimEnd (front ++ c :: rest) = front ++ c :: trimEnd rest := by
  induction front with
  | nil =>
    rw [List.nil_append,trimEnd]
    split
    · rename_i he; simp [h,he]
    · rfl
  | cons c' front ih =>
    rw [List.cons_append,trimEnd,ih]
    cases front <;> rfl

theorem trimEnd_concat {cs : List Char} {c : Char} (h : isBlank c = false) :
    trimEnd (cs ++ [c]) = cs ++ [c] :=
  trimEnd_append_cons h cs []

theorem trimEnd_concat_blank {cs : List Char} {c : Char} (h : isBlank c = true) :
    trimEnd (cs ++ [c]) = trimEnd cs := by
  induction cs with
  | nil => simp [trimEnd,h]
  | cons c' cs ih => rw [List.cons_append,trimEnd,trimEnd,ih]

theorem trimEnd_eq_rdropWhile (cs : List Char) : trimEnd cs = cs.rdropWhile isBlank := by
  induction cs using List.reverseRecOn with
  | nil => rfl
  | append_singleton cs c ih =>
    rw [List.rdropWhile_concat]
    split
    · rename_i h
      rw [trimEnd_concat_blank h,ih]
    · rename_i h
      exact trimEnd_concat (by simpa using h)

theorem trimEnd_isPrefix (cs : List Char) : trimEnd cs <+: cs :=
  trimEnd_eq_rdropWhile cs ▸ List.rdropWhile_prefix _ _

def IsTrimmed (cs : List Char) : Prop := ∀ c ∈ cs.getLast?, isBlank c = false

theorem isTrimmed_trimEnd (cs : List Char) : IsTrimmed (trimEnd cs) := by
  intro c h
  rw [trimEnd_eq_rdropWhile] at h
  obtain ⟨hne,rfl⟩ := List.mem_getLast?_eq_getLast h
  simpa using List.rdropWhile_last_not _ _ hne

theorem IsTrimmed.trimEnd_eq {cs : List Char} (h : IsTrimmed cs) : trimEnd cs = cs := by
  rw [trimEnd_eq_rdropWhile,List.rdropWhile_eq_self_iff]
  intro hne
  simpa using h _ (List.getLast_mem_getLast? hne)

theorem exists_trimEnd (cs : List Char) :
    ∃ tail, cs = trimEnd cs ++ tail ∧ ∀ c ∈ tail, isBlank c = true := by
  refine ⟨cs.rtakeWhile isBlank,?_,fun c hc => List.mem_rtakeWhile_imp hc⟩
  rw [trimEnd_eq_rdropWhile,List.rdropWhile_append_rtakeWhile]

def visible (cs : List Char) : List Char := cs.filter fun c => !isBlank c

theorem visible_append (cs cs' : List Char) : visible (cs ++ cs') = visible cs ++ visible cs' :=
  List.filter_append ..

theorem visible_cons (c : Char) (cs : List Char) : visible (c :: cs) = visible [c] ++ visible cs :=
  visible_append [c] cs

theorem visible_eq_nil_iff {cs : List Char} : visible cs = [] ↔ ∀ c ∈ cs, isBlank c = true := by
  simp [visible]

theorem visible_cons_blank {c : Char} (h : isBlank c = true) (cs : List Char) :
    visible (c :: cs) = visible cs := by
  simp [visible,h]

theorem visible_trimEnd (cs : List Char) : visible (trimEnd cs) = visible cs := by
  obtain ⟨tail,hcs,htail⟩ := exists_trimEnd cs
  conv_rhs => rw [hcs,visible_append,visible_eq_nil_iff.2 htail,List.append_nil]

theorem IsTrimmed.visible_eq_nil_iff {cs : List Char} (h : IsTrimmed cs) :
    visible cs = [] ↔ cs = [] := by
  rw [Text.visible_eq_nil_iff]
  constructor
  · intro hblank
    by_contra hne
    have hlast := h _ (List.getLast_mem_getLast? hne)
    rw [hblank _ (List.getLast_mem hne)] at hlast
    cases hlast
  · rintro rfl c hc
    cases hc

/-- No line end is seen. -/
theorem flatMap_visible_splitLines (cs : List Char) :
    (splitLines cs).flatMap visible = visible cs := by
  induction cs using splitLines.induct with
  | case1 => rfl
  | case2 rest ih =>
    rw [splitLines,List.flatMap_cons,ih,visible_cons_blank (by decide),
      visible_cons_blank (by decide)]
    rfl
  | case3 c rest hr he ih =>
    rw [splitLines,if_pos he,List.flatMap_cons,ih,visible_cons_blank (isBlank_of_isLineEnd he)]
    · rfl
    · exact hr
  | case4 c rest hr he hs ih =>
    rw [hs] at ih
    rw [splitLines,if_neg he,hs,visible_cons c rest,← ih]
    · rfl
    · exact hr
  | case5 c rest hr he line lines hs ih =>
    rw [hs] at ih
    rw [splitLines,if_neg he,hs,visible_cons c rest,← ih]
    · rw [List.flatMap_cons,List.flatMap_cons,visible_cons c line,List.append_assoc]
    · exact hr

end OperationHooks.Text
