import OperationHooks.Proofs.Text.Blank
import OperationHooks.Yaml.Scalar

set_option autoImplicit false

namespace OperationHooks.Yaml

namespace Cursor

variable {c c' c'' : Cursor} {cs ds rest : List Char} {ch : Char} {p : Char → Bool}

structure Passes (cs : List Char) (c c' : Cursor) : Prop where
  rest : c.rest = cs ++ c'.rest
  index : c'.index = c.index + cs.length
  line : (∀ ch ∈ cs, isBreak ch = false) → c'.line = c.line

theorem Passes.refl (c : Cursor) : Passes [] c c := ⟨rfl,rfl,fun _ => rfl⟩

theorem Passes.trans (h : Passes cs c c') (h' : Passes ds c' c'') : Passes (cs ++ ds) c c'' where
  rest := by rw [h.rest,h'.rest,List.append_assoc]
  index := by rw [h'.index,h.index,List.length_append,Nat.add_assoc]
  line hno := by
    rw [h'.line fun ch hch => hno ch (List.mem_append_right _ hch),h.line
      fun ch hch => hno ch (List.mem_append_left _ hch)]

theorem Passes.of_eq (h : Passes cs c c') (heq : cs = ds) : Passes ds c c' := heq ▸ h

theorem Passes.rest_eq (h : Passes cs c c') (hrest : c.rest = cs ++ rest) : c'.rest = rest :=
  List.append_cancel_left (h.rest.symm.trans hrest)

theorem passes_forward (h : c.rest = ch :: rest) : Passes [ch] c c.forward := by
  unfold forward
  rw [h]
  dsimp only
  split
  · rename_i hbreak
    refine ⟨h,rfl,fun hno => ?_⟩
    have hch := hno ch (List.mem_singleton_self ch)
    simp only [hch,Bool.and_false,Bool.false_or,Bool.and_eq_true,beq_iff_eq] at hbreak
    rw [hbreak.1] at hch
    cases hch
  · split <;> exact ⟨h,rfl,fun _ => rfl⟩

theorem passes_skip (cs : List Char) :
    ∀ c : Cursor, c.rest = cs ++ rest → Passes cs c (c.skip cs.length) := by
  induction cs with
  | nil => exact fun c _ => .refl c
  | cons ch cs ih =>
    intro c h
    have hforward := passes_forward h
    exact hforward.trans (ih c.forward (hforward.rest_eq h))

theorem peek_zero (h : c.rest = ch :: rest) : c.peek 0 = ch := by rw [peek,h]; rfl

theorem peek_one (h : c.rest = ch :: rest) : c.peek 1 = rest.headD '\x00' := by
  rw [peek,h]
  cases rest <;> rfl

theorem span_eq (h : c.rest = cs ++ rest) (hall : ∀ ch ∈ cs, p ch = true)
    (hstop : ∀ ch ∈ rest.head?, p ch = false) : c.span p = (cs,c.skip cs.length) := by
  rw [span,h,Text.takeWhile_run hall hstop]

theorem skipWhile_eq (h : c.rest = cs ++ rest) (hall : ∀ ch ∈ cs, p ch = true)
    (hstop : ∀ ch ∈ rest.head?, p ch = false) : c.skipWhile p = c.skip cs.length := by
  rw [skipWhile,span_eq h hall hstop]

theorem lineBreak_newline (h : c.rest = '\n' :: rest) : c.lineBreak = (['\n'],c.forward) := by
  rw [lineBreak,h]
  rfl

theorem isDocumentMarker_eq_false (h : ∀ ch ∈ c.rest.head?, ch ≠ '-' ∧ ch ≠ '.') :
    c.isDocumentMarker = false := by
  have hmarker : ∀ mark, (∀ ch ∈ c.rest.head?, ch ≠ mark) → c.isMarker mark = false :=
    fun mark hne => by
    rw [isMarker,Bool.and_eq_false_iff,beq_eq_false_iff_ne]
    refine .inl fun heq => ?_
    cases hr : c.rest with
    | nil => rw [hr] at heq; cases heq
    | cons ch rest =>
      rw [hr,List.take_succ_cons] at heq
      exact hne ch (by rw [hr]; rfl) (List.cons.inj heq).1
  rw [isDocumentMarker,hmarker '-' fun ch hch => (h ch hch).1,hmarker '.'
    fun ch hch => (h ch hch).2]
  rfl

end Cursor

open Cursor

def IsGap (cs : List Char) : Prop := ∀ c ∈ cs, c = ' ' ∨ c = '\n'

def Stops (rest : List Char) : Prop := ∀ c ∈ rest.head?, c ≠ ' ' ∧ isBreak c = false ∧ c ≠ '#'

variable {c : Cursor} {gap rest : List Char}

theorem IsGap.tail {ch : Char} (h : IsGap (ch :: gap)) : IsGap gap :=
  fun c hc => h c (List.mem_cons_of_mem _ hc)

theorem Stops.peek (h : Stops c.rest) :
    isBreak (c.peek 0) = false ∧ c.peek 0 ≠ '#' ∧ c.peek 0 ≠ ' ' := by
  cases hr : c.rest with
  | nil =>
    have hpeek : c.peek 0 = '\x00' := by rw [Cursor.peek,hr]; rfl
    rw [hpeek]
    decide
  | cons ch rest =>
    rw [peek_zero hr]
    obtain ⟨hspace,hbreak,hhash⟩ := h ch (by rw [hr]; rfl)
    exact ⟨hbreak,hhash,hspace⟩

/-- A gap is spaces, and then nothing or a line feed and a gap again. -/
theorem IsGap.split (h : IsGap gap) :
    ∃ spaces more, gap = spaces ++ more ∧ (∀ ch ∈ spaces, (ch == ' ') = true) ∧
    (more = [] ∨ ∃ gap', more = '\n' :: gap' ∧ IsGap gap') := by
  refine ⟨gap.takeWhile (· == ' '),gap.dropWhile (· == ' '),List.takeWhile_append_dropWhile.symm,
    fun ch hch => List.all_eq_true.1 List.all_takeWhile ch hch,?_⟩
  cases hd : gap.dropWhile (· == ' ') with
  | nil => exact .inl rfl
  | cons ch gap' =>
    have hmem : ∀ x ∈ ch :: gap', x ∈ gap := fun x hx => by
      rw [← hd] at hx
      exact (List.dropWhile_sublist _).subset hx
    have hne : (ch == ' ') = false := by
      have := List.head_dropWhile_not (p := (· == ' ')) (l := gap) (by simp [hd])
      simpa [hd] using this
    rcases h ch (hmem ch List.mem_cons_self) with rfl | rfl
    · cases hne
    · exact .inr ⟨gap',rfl,fun x hx => h x (hmem x (List.mem_cons_of_mem _ hx))⟩

theorem head?_spaces_stop {more : List Char}
    (hmore : more = [] ∨ ∃ gap', more = '\n' :: gap' ∧ IsGap gap')
    (hrest : Stops rest) : ∀ ch ∈ (more ++ rest).head?, (ch == ' ') = false := by
  intro ch hch
  rcases hmore with rfl | ⟨gap',rfl,-⟩
  · exact beq_eq_false_iff_ne.2 (hrest ch hch).1
  · obtain rfl : '\n' = ch := Option.some.inj hch
    decide

/-- Behind a plain word in brackets there is a gap, and then one of the marks of a list or table. -/
def Closes (rest : List Char) : Prop := ∃ c more, rest = c :: more ∧ (c = ',' ∨ c = ']' ∨ c = '}')

theorem Closes.stops (h : Closes rest) : Stops rest := by
  obtain ⟨c,more,rfl,hc⟩ := h
  intro d hd
  obtain rfl : c = d := Option.some.inj hd
  rcases hc with rfl | rfl | rfl <;> decide

theorem Closes.unmarked (h : Closes rest) (hg : IsGap gap) :
    ∀ ch ∈ (gap ++ rest).head?, ch ≠ '-' ∧ ch ≠ '.' := by
  intro ch hch
  cases gap with
  | nil =>
    obtain ⟨c,more,rfl,hc⟩ := h
    obtain rfl : c = ch := Option.some.inj hch
    rcases hc with rfl | rfl | rfl <;> decide
  | cons g gap =>
    obtain rfl : g = ch := Option.some.inj hch
    rcases hg g List.mem_cons_self with rfl | rfl <;> decide

theorem exists_plainBreaks (gap : List Char) : ∀ (fuel : Nat) (c : Cursor), gap.length ≤ fuel →
    c.rest = gap ++ rest →
    IsGap gap → Closes rest → ∃ text last, plainBreaks fuel c = some (text,last) ∧
    Passes gap c last := by
  induction gap with
  | nil =>
    intro fuel c _ hc _ hrest
    refine ⟨[],c,?_,.refl c⟩
    obtain ⟨hbreak,-,hspace⟩ := Stops.peek (c := c) (by rw [hc]; exact hrest.stops)
    cases fuel with
    | zero => rfl
    | succ fuel => simp [plainBreaks,hspace,hbreak]
  | cons g gap ih =>
    intro fuel c hf hc hg hrest
    obtain ⟨fuel,rfl⟩ : ∃ k, fuel = k + 1 := Nat.exists_eq_add_one.2 (by simp at hf; omega)
    have hf' : gap.length ≤ fuel := by simpa using hf
    have hhead : c.rest = g :: (gap ++ rest) := hc
    have hforward := passes_forward hhead
    have hbehind : c.forward.rest = gap ++ rest := hforward.rest_eq hhead
    obtain ⟨text,last,htext,hlast⟩ := ih fuel c.forward hf' hbehind hg.tail hrest
    have hpeek : c.peek 0 = g := peek_zero hhead
    rcases hg g List.mem_cons_self with rfl | rfl
    · refine ⟨text,last,?_,hforward.trans hlast⟩
      rw [plainBreaks,hpeek]
      exact htext
    · have hbreak : c.lineBreak = (['\n'],c.forward) := lineBreak_newline hhead
      have hmarker : c.forward.isDocumentMarker = false :=
        isDocumentMarker_eq_false (by rw [hbehind]; exact hrest.unmarked hg.tail)
      refine ⟨['\n'] ++ text,last,?_,hforward.trans hlast⟩
      rw [plainBreaks,hpeek,hbreak]
      simp [isBreak,hmarker,htext]

/-- The gap behind a word is taken as a whole; unless it says nothing, a text stands for it. -/
theorem exists_plainGap (hc : c.rest = gap ++ rest) (hg : IsGap gap) (hrest : Closes rest) :
    ∃ text broke last, plainGap c = ⟨text,broke,last⟩ ∧ Passes gap c last := by
  obtain ⟨spaces,more,rfl,hspaces,hmore⟩ := hg.split
  have hc' : c.rest = spaces ++ (more ++ rest) := by rw [hc,List.append_assoc]
  have hspan := span_eq hc' hspaces (head?_spaces_stop hmore hrest.stops)
  have hskip := passes_skip spaces c hc'
  have hbehind := hskip.rest_eq hc'
  generalize c.skip spaces.length = afterSpaces at hspan hskip hbehind
  rcases hmore with rfl | ⟨gap',rfl,hg'⟩
  · rw [List.nil_append] at hbehind
    have hstop : isBreak (afterSpaces.peek 0) = false :=
      (Stops.peek (by rw [hbehind]; exact hrest.stops)).1
    refine ⟨spaces,false,afterSpaces,?_,by simpa using hskip⟩
    rw [plainGap,hspan]
    simp [hstop]
  · have hhead : afterSpaces.rest = '\n' :: (gap' ++ rest) := hbehind
    have hforward := passes_forward hhead
    have hnext : afterSpaces.forward.rest = gap' ++ rest := hforward.rest_eq hhead
    obtain ⟨text,last,htext,hlast⟩ := exists_plainBreaks gap' afterSpaces.forward.rest.length
      afterSpaces.forward
      (by rw [hnext]; simp) hnext hg' hrest
    have hmarker : afterSpaces.forward.isDocumentMarker = false :=
      isDocumentMarker_eq_false (by rw [hnext]; exact hrest.unmarked hg')
    have hpeek : afterSpaces.peek 0 = '\n' := peek_zero hhead
    have hbreak : afterSpaces.lineBreak = (['\n'],afterSpaces.forward) := lineBreak_newline hhead
    refine ⟨foldBreaks ['\n'] text,true,last,?_,(hskip.trans hforward).trans hlast |>.of_eq ?_⟩
    · rw [plainGap,hspan]
      simp [hpeek,isBreak,hbreak,hmarker,htext]
    · simp

def isWordChar (c : Char) : Bool :=
  !(isGapOrEnd c || isFlowIndicator c || c == '?' || c == ':' || c == '#')

theorem plainPiece_append {word : List Char} (hword : word.all isWordChar = true)
    (hstop : ∀ ch ∈ rest.head?, isGapOrEnd ch = true ∨ isFlowIndicator ch = true) :
    plainPiece true (word ++ rest) = word := by
  induction word with
  | nil =>
    cases rest with
    | nil => rfl
    | cons ch rest =>
      rw [List.nil_append,plainPiece,if_pos]
      rcases hstop ch rfl with h | h <;> simp [h]
  | cons ch word ih =>
    rw [List.all_cons,Bool.and_eq_true] at hword
    have hch := hword.1
    simp only [isWordChar,Bool.not_eq_true',Bool.or_eq_false_iff,beq_eq_false_iff_ne] at hch
    rw [List.cons_append,plainPiece,if_neg,ih hword.2]
    simp [hch]

/-- A word with a gap behind it is read as what it is. -/
theorem exists_plainFrom {word : List Char} (indent : Int)
    (hc : c.rest = word ++ (gap ++ rest)) (hne : word ≠ [])
    (hword : word.all isWordChar = true) (hg : IsGap gap) (hrest : Closes rest) (fuel : Nat) :
    ∃ broke last, plainFrom true indent [] false (fuel + 1) c = (word,broke,last) ∧
    Passes (word ++ gap) c last := by
  obtain ⟨first,more,rfl⟩ := List.exists_cons_of_ne_nil hne
  have hhash : c.peek 0 ≠ '#' := by
    have hhead : c.rest = first :: (more ++ (gap ++ rest)) := hc
    rw [peek_zero hhead]
    rintro rfl
    simp [isWordChar] at hword
  have hends : ∀ ch ∈ (gap ++ rest).head?, isGapOrEnd ch = true ∨ isFlowIndicator ch = true := by
    intro ch hch
    cases gap with
    | nil =>
      obtain ⟨d,tail,rfl,hd⟩ := hrest
      obtain rfl : d = ch := Option.some.inj hch
      rcases hd with rfl | rfl | rfl <;> decide
    | cons g gap =>
      obtain rfl : g = ch := Option.some.inj hch
      rcases hg g List.mem_cons_self with rfl | rfl <;> decide
  have hpiece : plainPiece true c.rest = first :: more := by rw [hc,plainPiece_append hword hends]
  have hskip := passes_skip (first :: more) c hc
  have hbehind := hskip.rest_eq hc
  obtain ⟨text,broke,last,hgap,hlast⟩ := exists_plainGap hbehind hg hrest
  have hstop : plainPiece true last.rest = [] := by
    rw [hlast.rest_eq hbehind]
    obtain ⟨d,tail,rfl,hd⟩ := hrest
    rcases hd with rfl | rfl | rfl <;> rfl
  -- a gap that says something makes the reader look on, in vain
  have hvain : ∀ fuel, plainFrom true indent text broke fuel last = ([],broke,last) := by
    intro fuel
    cases fuel with
    | zero => rfl
    | succ fuel =>
      rw [plainFrom,hstop]
      split <;> rfl
  rw [plainFrom,if_neg (by simpa using hhash),hpiece]
  dsimp only
  rw [hgap]
  dsimp only
  split
  · exact ⟨broke,last,rfl,hskip.trans hlast⟩
  · rw [hvain]
    exact ⟨broke,last,by simp,hskip.trans hlast⟩

end OperationHooks.Yaml
