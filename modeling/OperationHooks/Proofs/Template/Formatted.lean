import OperationHooks.Proofs.Format.Lines
import OperationHooks.Proofs.Template.Slots

set_option autoImplicit false

namespace OperationHooks

open Format Template

namespace Template

namespace Phrase

structure IsSolid (p : Phrase) : Prop where
  opening : ∃ c rest, p.opening = c :: rest ∧ c ≠ ' ' ∧ c ≠ '\t'
  stop : Text.isBlank p.stop = false

def Steady (p : Phrase) (line : List Char) : Prop :=
  (∃ body rest, line = p.opening ++ (body ++ p.stop :: rest)) ∨
  ¬ p.opening <+: line.dropWhile (· = ' ')

variable {p : Phrase} {line : List Char}

theorem said?_eq_none : p.said? line = none ↔ ¬ p.opening <+: line := by
  rw [said?,Option.map_eq_none_iff,← Option.not_isSome_iff_eq_none,
    Option.isSome_iff_exists,not_iff_not]
  constructor
  · rintro ⟨rest,h⟩
    obtain ⟨front,rfl,hb⟩ := List.dropPrefix?_eq_some_iff.1 h
    exact ⟨rest,by rw [eq_of_beq hb]⟩
  · rintro ⟨rest,rfl⟩
    exact ⟨rest,List.dropPrefix?_append_of_beq rest (beq_self_eq_true _)⟩

theorem said?_append (body rest : List Char) :
    p.said? (p.opening ++ (body ++ p.stop :: rest)) = some (body.takeWhile (· ≠ p.stop)) := by
  have htake :
      ∀ body : List Char, (body ++ p.stop :: rest).takeWhile (· ≠ p.stop) =
      body.takeWhile (· ≠ p.stop) := by
    intro body
    induction body with
    | nil => simp
    | cons c body ih =>
      by_cases hc : c = p.stop
      · simp [hc]
      · simpa [hc] using ih
  rw [said?,List.dropPrefix?_append_of_beq _ (beq_self_eq_true _),Option.map_some,htake]

theorem dropWhile_isPrefix {q : Char → Bool} {a b : List Char} (h : a <+: b) :
    a.dropWhile q <+: b.dropWhile q := by
  induction a generalizing b with
  | nil => exact List.nil_prefix
  | cons c a ih =>
    obtain ⟨rest,rfl⟩ := h
    by_cases hc : q c = true
    · rw [List.cons_append,List.dropWhile_cons_of_pos hc,List.dropWhile_cons_of_pos hc]
      exact ih (List.prefix_append a rest)
    · rw [List.cons_append,List.dropWhile_cons_of_neg hc,List.dropWhile_cons_of_neg hc]
      exact ⟨rest,rfl⟩

theorem Steady.said?_indentLine (h : p.Steady line) (hp : p.IsSolid) (o : Options) :
    p.said? (indentLine o (Text.trimEnd line)) = p.said? line := by
  obtain ⟨c,opening,hopening,hspace,htab⟩ := hp.opening
  rcases h with ⟨body,rest,rfl⟩ | h
  · rw [← List.append_assoc,Text.trimEnd_append_cons hp.stop,List.append_assoc]
    have hhead : ∀ tail, indentLine o (p.opening ++ tail) = p.opening ++ tail := fun tail => by
      rw [hopening,List.cons_append,indentLine_cons o hspace]
    rw [hhead,said?_append,List.append_assoc,said?_append]
  -- Without indentation, and with it, the line opens differently.
  · have hplain : ∀ indent : List Char, (∀ c ∈ indent, c = '\t' ∨ c = ' ') → ∀ rest : List Char,
        p.opening <+: indent ++ rest → p.opening <+: rest := by
      intro indent hindent rest hprefix
      cases indent with
      | nil => exact hprefix
      | cons c' indent =>
        obtain ⟨tail,he⟩ := hprefix
        rw [hopening,List.cons_append,List.cons_append] at he
        obtain rfl : c = c' := (List.cons.inj he).1
        exact ((hindent c List.mem_cons_self).elim htab hspace).elim
    have hline : ¬ p.opening <+: line := fun hprefix => h (hplain (line.takeWhile (· = ' '))
      (fun c hc => .inr (by simpa using List.all_eq_true.1 List.all_takeWhile c hc)) _
      (by rwa [List.takeWhile_append_dropWhile]))
    obtain ⟨indent,hindent,he⟩ := exists_indentLine o (Text.trimEnd line)
    rw [said?_eq_none.2 hline,said?_eq_none,he]
    exact fun hprefix => h ((hplain indent hindent _ hprefix).trans
      (dropWhile_isPrefix (Text.trimEnd_isPrefix line)))

end Phrase

section Formatted

variable {ps : List Phrase} {o : Options} {text formatted : String}

theorem saidBy_nil (hps : ∀ p ∈ ps, p.IsSolid) : saidBy ps [] = none := by
  rw [saidBy,List.findSome?_eq_none_iff]
  intro p hp
  obtain ⟨c,rest,hopening,-⟩ := (hps p hp).opening
  rw [Phrase.said?_eq_none,hopening]
  simp

theorem saidBy_congr {line line' : List Char} (h : ∀ p ∈ ps, p.said? line = p.said? line') :
    saidBy ps line = saidBy ps line' := by
  unfold saidBy
  induction ps with
  | nil => rfl
  | cons p ps ih =>
    obtain ⟨hp,hps⟩ := List.forall_mem_cons.1 h
    rw [List.findSome?_cons,List.findSome?_cons,hp,ih hps]

/-- A text of steady lines says the same when it is put in order. -/
theorem said_basic (hb : basic? o text = some formatted) (hps : ∀ p ∈ ps, p.IsSolid)
    (hl : ∀ line ∈ Text.splitLines text.toList, ∀ p ∈ ps, p.Steady line) :
      said ps formatted = said ps text := by
  have hsteady : ∀ line ∈ Text.splitLines text.toList,
      saidBy ps (indentLine o (Text.trimEnd line)) = saidBy ps line := by
    intro line hline
    exact saidBy_congr fun p hp => (hl line hline p hp).said?_indentLine (hps p hp) o
  rw [said,filterMap_basic (saidBy_nil hps) hb,List.filterMap_congr hsteady,said]

def isSteady (p : Phrase) (line : List Symbol) : Bool :=
  (Phrase.behind p.opening line).any (·.contains (.char p.stop)) ||
    Phrase.settles p.opening (line.dropWhile (· = .char ' ')) &&
      (Phrase.behind p.opening (line.dropWhile (· = .char ' '))).isNone

variable {p : Phrase} {value : String → List Char} {line : List Symbol} {ss : List Symbol}

theorem fill_of_behind {opening : List Char} {rest : List Symbol}
    (h : Phrase.behind opening line = some rest) :
    fill value line = opening ++ fill value rest := by
  induction opening generalizing line with
  | nil => obtain rfl := Option.some.inj h; rfl
  | cons c cs ih =>
    match line with
    | [] | .slot _ :: _ => cases h
    | .char c' :: line =>
      rw [Phrase.behind] at h
      split at h
      · rename_i hc
        rw [fill_char,ih h,hc,List.cons_append]
      · cases h

theorem dropWhile_fill (hp : p.opening ≠ [])
    (hs : Phrase.settles p.opening (line.dropWhile (· = .char ' ')) = true) :
    (fill value line).dropWhile (· = ' ') = fill value (line.dropWhile (· = .char ' ')) := by
  induction line with
  | nil => rfl
  | cons s rest ih =>
    match s with
    | .char c =>
      by_cases hc : c = ' '
      · subst hc
        rw [List.dropWhile_cons_of_pos (by simp)] at hs ⊢
        rw [fill_char,List.dropWhile_cons_of_pos (by simp)]
        exact ih hs
      · rw [List.dropWhile_cons_of_neg (by simpa using hc),fill_char,
          List.dropWhile_cons_of_neg (by simpa using hc)]
    | .slot name =>
      rw [List.dropWhile_cons_of_neg (by simp)] at hs
      cases ho : p.opening with
      | nil => exact absurd ho hp
      | cons c cs => rw [ho] at hs; cases hs

theorem steady_fill (hp : p.IsSolid) (h : isSteady p line = true) : p.Steady (fill value line) := by
  obtain ⟨c,opening,hopening,-⟩ := hp.opening
  simp only [isSteady,Bool.or_eq_true,Bool.and_eq_true,Option.any_eq_true_iff_get] at h
  rcases h with h | ⟨hs,hb⟩
  · left
    cases hb : Phrase.behind p.opening line with
    | none => rw [hb] at h; simp at h
    | some rest =>
      simp only [hb,Option.get_some,List.contains_eq_mem,decide_eq_true_eq] at h
      obtain ⟨-,hstop⟩ := h
      obtain ⟨body,rest,rfl⟩ := List.append_of_mem hstop
      exact ⟨fill value body,fill value rest,by rw [fill_of_behind hb,fill_append,fill_char]⟩
  · right
    rw [dropWhile_fill (by simp [hopening]) hs]
    have hnone : (fill value _).dropPrefix? _ = _ := Phrase.dropPrefix?_fill hs
    rw [Option.isNone_iff_eq_none.1 hb] at hnone
    rw [← Phrase.said?_eq_none,Phrase.said?,hnone]
    rfl

end Formatted

end Template

end OperationHooks
