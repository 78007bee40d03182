import Mathlib.Data.List.Basic
import OperationHooks.Path
/-!
Paths as they are written: what joining, folding and sorting keep of their components, and that a
path whose components are names is told by its text and by its place in the order.
-/
set_option autoImplicit false

namespace OperationHooks.Path

def Dotless (p : Path) : Prop := "." ∉ p.parts

theorem dotless_ofString (s : String) : (ofString s).Dotless := by
  intro h
  obtain ⟨cs,hcs,he⟩ := List.mem_map.1 h
  have hdot : cs = ['.'] := by
    have h' := congrArg String.toList he
    simpa using h'
  simp [hdot,saysNothing] at hcs

theorem dotless_join {p q : Path} (hp : p.Dotless) (hq : q.Dotless) : (p.join q).Dotless := by
  unfold join
  split
  · exact hq
  · intro h; exact (List.mem_append.1 h).elim hp hq

theorem dotless_parent {p : Path} (hp : p.Dotless) : p.parent.Dotless := fun h =>
  hp ((List.dropLast_prefix _).subset h)

theorem mem_of_mem_fold {p : Path} {part : String} (h : part ∈ p.fold.parts) : part ∈ p.parts := by
  have hfold : ∀ (parts folded : List String),
      part ∈ parts.foldl (foldStep p.isAbsolute) folded → part ∈ parts ∨ part ∈ folded := by
    intro parts
    induction parts with
    | nil => exact fun folded h => .inr h
    | cons first rest ih =>
      intro folded h
      rcases ih _ h with h | h
      · exact .inl (List.mem_cons_of_mem _ h)
      · unfold foldStep at h
        split at h
        · split at h
          · split at h
            · cases h
            · simp only [List.mem_singleton] at h; simp [h]
          · split at h
            · rcases List.mem_cons.1 h with rfl | h
              · simp
              · exact .inr h
            · exact .inr (List.mem_cons_of_mem _ h)
        · rcases List.mem_cons.1 h with rfl | h
          · simp
          · exact .inr h
  simpa using hfold p.parts [] (List.mem_reverse.1 h)

theorem dotless_fold {p : Path} (hp : p.Dotless) : p.fold.Dotless := fun h => hp (mem_of_mem_fold h)

theorem mem_sorted {p : Path} {paths : List Path} : p ∈ sorted paths ↔ p ∈ paths := by
  simp [sorted,List.mem_eraseDups]

theorem eraseDups_of_nodup {α : Type} [BEq α] [LawfulBEq α] {xs : List α} (h : xs.Nodup) :
    xs.eraseDups = xs := by
  induction xs with
  | nil => rfl
  | cons x rest ih =>
    obtain ⟨hx,hrest⟩ := List.nodup_cons.1 h
    have hf : rest.filter (fun y => !y == x) = rest := by
      refine List.filter_eq_self.2 fun y hy => ?_
      have hne : y ≠ x := fun he => hx (he ▸ hy)
      simp [hne]
    rw [List.eraseDups_cons,hf,ih hrest]

/-- Paths in order are left as they are. -/
theorem sorted_of_pairwise {paths : List Path} (h : paths.Pairwise (lessOrEqual · ·))
    (hd : paths.Nodup) :
    sorted paths = paths := by
  rw [sorted,eraseDups_of_nodup hd,List.mergeSort_of_pairwise h]

/-- What can be a component of a path. -/
def IsPart (part : String) : Prop := part ≠ "" ∧ part ≠ "." ∧ '/' ∉ part.toList

instance (part : String) : Decidable (IsPart part) := inferInstanceAs (Decidable (_ ∧ _))

def Plain (p : Path) : Prop := ∀ part ∈ p.parts, IsPart part

instance (p : Path) : Decidable p.Plain :=
  inferInstanceAs (Decidable (∀ part ∈ p.parts, IsPart part))

theorem Plain.dotless {p : Path} (h : p.Plain) : p.Dotless := fun hp => (h _ hp).2.1 rfl

theorem splitAt_eq_splitOn (separator : Char) (cs : List Char) :
    Text.splitAt separator cs = cs.splitOn separator := by
  induction cs with
  | nil => rfl
  | cons c rest ih =>
    rw [Text.splitAt,ih,List.splitOn_cons_eq_if_modifyHead]
    by_cases hc : c = separator
    · simp [hc]
    · simp only [hc,beq_iff_eq,if_false]
      cases hs : rest.splitOn separator with
      | nil => exact absurd hs (List.splitOn_ne_nil _ _)
      | cons piece pieces => rfl

theorem not_mem_of_mem_splitOn {separator : Char} {cs piece : List Char}
    (h : piece ∈ cs.splitOn separator) : separator ∉ piece := by
  induction cs generalizing piece with
  | nil => simp at h; simp [h]
  | cons c rest ih =>
    rw [List.splitOn_cons_eq_if_modifyHead] at h
    split at h
    · rcases List.mem_cons.1 h with rfl | h
      · simp
      · exact ih h
    · rename_i hc
      cases hs : rest.splitOn separator with
      | nil => simp [hs] at h
      | cons first others =>
        rw [hs,List.modifyHead_cons] at h
        rcases List.mem_cons.1 h with rfl | h
        · have hfirst := ih (hs ▸ List.mem_cons_self : first ∈ rest.splitOn separator)
          simp only [beq_iff_eq] at hc
          simp [hfirst,Ne.symm hc]
        · exact ih (by rw [hs]; exact List.mem_cons_of_mem _ h)

theorem plain_ofString (s : String) : (ofString s).Plain := by
  intro part h
  obtain ⟨cs,hcs,rfl⟩ := List.mem_map.1 h
  obtain ⟨hcs,hsaid⟩ := List.mem_filter.1 hcs
  rw [splitAt_eq_splitOn] at hcs
  simp only [saysNothing,Bool.not_eq_true',Bool.or_eq_false_iff,beq_eq_false_iff_ne] at hsaid
  refine ⟨fun he => hsaid.1 ?_,fun he => hsaid.2 ?_,by simpa using not_mem_of_mem_splitOn hcs⟩
  · have h' := congrArg String.toList he; simpa using h'
  · have h' := congrArg String.toList he; simpa using h'

theorem plain_join {p q : Path} (hp : p.Plain) (hq : q.Plain) : (p.join q).Plain := by
  unfold join
  split
  · exact hq
  · intro part h; exact (List.mem_append.1 h).elim (hp part) (hq part)

theorem plain_parent {p : Path} (hp : p.Plain) : p.parent.Plain := fun part h =>
  hp part ((List.dropLast_prefix _).subset h)

theorem plain_fold {p : Path} (hp : p.Plain) : p.fold.Plain :=
  fun part h => hp part (mem_of_mem_fold h)

theorem toList_ne_nil {part : String} (h : IsPart part) : part.toList ≠ [] := by
  intro he
  exact h.1 (by rw [← String.ofList_toList (s := part),he])

theorem toList_ne_dot {part : String} (h : IsPart part) : part.toList ≠ ['.'] := by
  intro he
  exact h.2.1 (by rw [← String.ofList_toList (s := part),he])

theorem head?_intercalate {parts : List String} (h : ∀ part ∈ parts, IsPart part) :
    (['/'].intercalate (parts.map String.toList)).head? ≠ some '/' := by
  cases parts with
  | nil => simp
  | cons first rest =>
    have hf := h first List.mem_cons_self
    obtain ⟨c,cs,hcs⟩ := List.exists_cons_of_ne_nil (toList_ne_nil hf)
    have hc : c ≠ '/' := by rintro rfl; exact hf.2.2 (by simp [hcs])
    cases rest <;> simp [hcs,hc]

theorem ofChars_of_parts {parts : List String} {anchor : Anchor} (h : ∀ part ∈ parts, IsPart part)
    (front : List (List Char)) (hfront : ∀ piece ∈ front, saysNothing piece = true)
    (cs : List Char) (hanchor : anchorOf cs = anchor)
    (hcs : Text.splitAt '/' cs = front ++ parts.map String.toList) :
      ofChars cs = ⟨anchor,parts⟩ := by
  have hf : front.filter (!saysNothing ·) = [] := by
    simpa [List.filter_eq_nil_iff] using hfront
  have hp : (parts.map String.toList).filter (!saysNothing ·) = parts.map String.toList := by
    refine List.filter_eq_self.2 fun piece hpiece => ?_
    obtain ⟨part,hpart,rfl⟩ := List.mem_map.1 hpiece
    have hpart' := h part hpart
    simp [saysNothing,toList_ne_nil hpart',toList_ne_dot hpart']
  simp only [ofChars,hanchor,hcs,List.filter_append,hf,hp,List.nil_append,List.map_map]
  congr 1
  conv_rhs => rw [← List.map_id parts]
  exact List.map_congr_left fun part _ => String.ofList_toList

theorem ofString_text {p : Path} (h : p.Plain) : ofString p.text = p := by
  obtain ⟨anchor,parts⟩ := p
  have hsplit : parts ≠ [] → Text.splitAt '/' (['/'].intercalate (parts.map String.toList)) =
      parts.map String.toList := fun hne => by
    rw [splitAt_eq_splitOn]
    refine List.splitOn_intercalate '/' (fun piece hpiece => ?_) (by simpa using hne)
    obtain ⟨part,hpart,rfl⟩ := List.mem_map.1 hpiece
    exact (h part hpart).2.2
  have hhead := head?_intercalate h
  by_cases hne : parts = []
  · subst hne; cases anchor <;> rfl
  · unfold ofString text
    obtain ⟨c,cs,hcs⟩ : ∃ c cs, ['/'].intercalate (parts.map String.toList) = c :: cs := by
      refine List.exists_cons_of_ne_nil fun he => ?_
      have hs := hsplit hne
      rw [he] at hs
      obtain ⟨part,rest,rfl⟩ := List.exists_cons_of_ne_nil hne
      simp only [Text.splitAt,List.map_cons,List.cons.injEq] at hs
      exact toList_ne_nil (h part List.mem_cons_self) hs.1.symm
    have hs := hsplit hne
    rw [hcs] at hs hhead
    have hc : c ≠ '/' := by rintro rfl; simp at hhead
    cases anchor with
    | here =>
      have htext : ("" ++ "/".intercalate parts).toList = c :: cs := by simpa using hcs
      simp only [hne,List.isEmpty_iff,decide_true,Bool.true_and,Anchor.text,htext,if_false]
      exact ofChars_of_parts h [] (by simp) _ (by simp [anchorOf,hc]) hs
    | root =>
      have htext : ("/" ++ "/".intercalate parts).toList = '/' :: c :: cs := by simpa using hcs
      simp only [Anchor.text,htext,reduceCtorEq,decide_false,Bool.false_and,
        Bool.false_eq_true,if_false]
      exact ofChars_of_parts h [[]] (by simp [saysNothing]) _ (by simp [anchorOf,hc])
        (by rw [Text.splitAt,if_pos rfl,hs]; rfl)
    | doubleRoot =>
      have htext :
          ("//" ++ "/".intercalate parts).toList = '/' :: '/' :: c :: cs := by simpa using hcs
      simp only [Anchor.text,htext,reduceCtorEq,decide_false,Bool.false_and,
        Bool.false_eq_true,if_false]
      exact ofChars_of_parts h [[],[]] (by simp [saysNothing]) _ (by simp [anchorOf,hc])
        (by rw [Text.splitAt,if_pos rfl,Text.splitAt,if_pos rfl,hs]; rfl)

theorem text_injective {p q : Path} (hp : p.Plain) (hq : q.Plain)
    (h : p.text = q.text) : p = q := by
  rw [← ofString_text hp,h,ofString_text hq]

theorem splitAt_of_not_mem {cs : List Char} (h : '/' ∉ cs) : Text.splitAt '/' cs = [cs] := by
  induction cs with
  | nil => rfl
  | cons c rest ih =>
    have hc : c ≠ '/' := fun hc => h (hc ▸ List.mem_cons_self)
    rw [Text.splitAt,if_neg hc,ih fun hm => h (List.mem_cons_of_mem _ hm)]

theorem splitAt_append (front : List Char) : ∃ pieces last, ∀ cs : List Char, '/' ∉ cs →
    Text.splitAt '/' (front ++ cs) = pieces ++ [last ++ cs] := by
  induction front with
  | nil => exact ⟨[],[],fun cs h => splitAt_of_not_mem h⟩
  | cons c rest ih =>
    obtain ⟨pieces,last,hsplit⟩ := ih
    by_cases hc : c = '/'
    · refine ⟨[] :: pieces,last,fun cs h => ?_⟩
      rw [List.cons_append,Text.splitAt,if_pos hc,hsplit cs h]
      rfl
    · cases pieces with
      | nil =>
        refine ⟨[],c :: last,fun cs h => ?_⟩
        rw [List.cons_append,Text.splitAt,if_neg hc,hsplit cs h]
        rfl
      | cons piece pieces =>
        refine ⟨(c :: piece) :: pieces,last,fun cs h => ?_⟩
        rw [List.cons_append,Text.splitAt,if_neg hc,hsplit cs h]
        rfl

theorem anchorOf_append (front : List Char) :
    ∃ anchor : Anchor, (anchor ≠ .here ↔ front.head? = some '/') ∧
    ∀ cs : List Char, cs ≠ [] → '/' ∉ cs → anchorOf (front ++ cs) = anchor := by
  have hhead : ∀ cs : List Char, cs ≠ [] → '/' ∉ cs → ∃ c rest, cs = c :: rest ∧ c ≠ '/' := by
    intro cs hne h
    obtain ⟨c,rest,rfl⟩ := List.exists_cons_of_ne_nil hne
    exact ⟨c,rest,rfl,fun hc => h (hc ▸ List.mem_cons_self)⟩
  match front with
  | [] =>
    refine ⟨.here,by simp,fun cs hne h => ?_⟩
    obtain ⟨c,rest,rfl,hc⟩ := hhead cs hne h
    simp [anchorOf,hc]
  | [a] =>
    by_cases ha : a = '/'
    · subst ha
      refine ⟨.root,by simp,fun cs hne h => ?_⟩
      obtain ⟨c,rest,rfl,hc⟩ := hhead cs hne h
      simp [anchorOf,hc]
    · exact ⟨.here,by simp [ha],fun cs _ _ => by simp [anchorOf,ha]⟩
  | [a,b] =>
    by_cases ha : a = '/'
    · subst ha
      by_cases hb : b = '/'
      · subst hb
        refine ⟨.doubleRoot,by simp,fun cs hne h => ?_⟩
        obtain ⟨c,rest,rfl,hc⟩ := hhead cs hne h
        simp [anchorOf,hc]
      · exact ⟨.root,by simp,fun cs _ _ => by simp [anchorOf,hb]⟩
    · exact ⟨.here,by simp [ha],fun cs _ _ => by simp [anchorOf,ha]⟩
  | a :: b :: c :: rest =>
    refine ⟨anchorOf (a :: b :: c :: rest),?_,fun cs _ _ => ?_⟩
    · by_cases ha : a = '/' <;> by_cases hb : b = '/' <;> by_cases hc :
        c = '/' <;> simp [anchorOf,ha,hb,hc]
    · by_cases ha : a = '/' <;> by_cases hb : b = '/' <;> by_cases hc :
        c = '/' <;> simp [anchorOf,ha,hb,hc]

/-- What stands in front of a name settles all of a path but the end of its last component. -/
theorem ofChars_append (front : List Char) : ∃ anchor parts last,
    (anchor ≠ Anchor.here ↔ front.head? = some '/') ∧ ∀ cs : List Char, 2 ≤ cs.length → '/' ∉ cs →
      ofChars (front ++ cs) = ⟨anchor,parts ++ [String.ofList (last ++ cs)]⟩ := by
  obtain ⟨anchor,hhere,hanchor⟩ := anchorOf_append front
  obtain ⟨pieces,last,hsplit⟩ := splitAt_append front
  refine ⟨anchor,(pieces.filter (!saysNothing ·)).map String.ofList,last,hhere,
    fun cs hlength h => ?_⟩
  have hne : cs ≠ [] := by rintro rfl; simp at hlength
  have hspeaks : saysNothing (last ++ cs) = false := by
    have hlong : 2 ≤ (last ++ cs).length := by rw [List.length_append]; omega
    simp only [saysNothing,Bool.or_eq_false_iff,beq_eq_false_iff_ne]
    constructor <;> intro he <;> rw [he] at hlong <;> simp at hlong
  rw [ofChars,hanchor cs hne h,hsplit cs h,List.filter_append,List.map_append]
  simp [hspeaks]

/-- Two names with the same in front of them lead to one path from two directories only if they are
one name, and the directories are one as well if they are of account. -/
theorem join_append_eq {p q : Path} {front cs cs' : List Char} (h : 2 ≤ cs.length)
    (h' : 2 ≤ cs'.length)
    (hs : '/' ∉ cs) (hs' : '/' ∉ cs') :
      p.join (ofChars (front ++ cs)) = q.join (ofChars (front ++ cs')) ↔
      (front.head? = some '/' ∨ p = q) ∧ cs = cs' := by
  obtain ⟨anchor,parts,last,hhere,hpath⟩ := ofChars_append front
  have hend : String.ofList (last ++ cs) = String.ofList (last ++ cs') ↔ cs = cs' :=
    ⟨fun he => List.append_cancel_left (String.ofList_injective he),fun he => he ▸ rfl⟩
  rw [hpath cs h hs,hpath cs' h' hs',← hhere]
  unfold join isAbsolute
  by_cases ha : anchor = .here
  · obtain ⟨a,xs⟩ := p
    obtain ⟨b,ys⟩ := q
    simp only [ha,bne_self_eq_false,Bool.false_eq_true,if_false,ne_eq,not_true_eq_false,
      false_or,mk.injEq]
    rw [← List.append_assoc,← List.append_assoc,List.append_singleton_inj,hend,
      List.append_cancel_right_eq,
      and_assoc]
  · simp only [bne_iff_ne.2 ha,if_true,ne_eq,ha,not_false_eq_true,true_or,true_and,mk.injEq]
    rw [List.append_cancel_left_eq]
    simpa using hend

/-- No component is an anchor, so paths in the same place in the order are the same. -/
theorem sortKey_injective {p q : Path} (hp : p.Plain) (hq : q.Plain) (h : p.sortKey = q.sortKey) :
    p = q := by
  have hfirst : ∀ {r : Path} {anchor : Anchor} {rest : List String}, r.Plain → anchor ≠ .here →
      r.parts ≠ anchor.text :: rest := by
    intro r anchor rest hr ha he
    have hpart := (hr anchor.text (by rw [he]; exact List.mem_cons_self)).2.2
    cases anchor <;> simp [Anchor.text] at ha hpart
  obtain ⟨a,xs⟩ := p
  obtain ⟨b,ys⟩ := q
  cases a <;> cases b <;>
    simp only [sortKey,isAbsolute,bne_self_eq_false,Bool.false_eq_true,if_false,
    reduceCtorEq,bne_iff_ne,ne_eq,not_false_eq_true,if_true,List.cons.injEq] at h
  · rw [h]
  · exact absurd h (hfirst hp (by simp))
  · exact absurd h (hfirst hp (by simp))
  · exact absurd h.symm (hfirst hq (by simp))
  · rw [h.2]
  · simp [Anchor.text] at h
  · exact absurd h.symm (hfirst hq (by simp))
  · simp [Anchor.text] at h
  · rw [h.2]

theorem lessOrEqual_trans (p q r : Path) (h : lessOrEqual p q = true)
    (h' : lessOrEqual q r = true) :
    lessOrEqual p r = true := by
  simp only [lessOrEqual,decide_eq_true_eq,List.not_lt] at *
  exact List.le_trans h h'

theorem lessOrEqual_total (p q : Path) : (lessOrEqual p q || lessOrEqual q p) = true := by
  simp only [lessOrEqual,Bool.or_eq_true,decide_eq_true_eq,List.not_lt]
  exact List.le_total _ _

theorem nodup_eraseDups {α : Type} [BEq α] [LawfulBEq α] (xs : List α) : xs.eraseDups.Nodup := by
  induction hn : xs.length using Nat.strongRecOn generalizing xs with
  | ind n ih =>
    cases xs with
    | nil => simp
    | cons x rest =>
      rw [List.eraseDups_cons,List.nodup_cons]
      refine ⟨fun h => ?_,ih _ ?_ _ rfl⟩
      · rw [List.mem_eraseDups] at h
        simpa using (List.mem_filter.1 h).2
      · rw [← hn]
        exact Nat.lt_succ_of_le (List.length_filter_le _ _)

theorem sorted_eraseDups (paths : List Path) : sorted paths.eraseDups = sorted paths := by
  rw [sorted,sorted,eraseDups_of_nodup (nodup_eraseDups paths)]

theorem nodup_sorted (paths : List Path) : (sorted paths).Nodup :=
  (List.mergeSort_perm _ _).nodup_iff.2 (nodup_eraseDups paths)

theorem pairwise_sorted (paths : List Path) : (sorted paths).Pairwise (lessOrEqual · ·) :=
  List.pairwise_mergeSort lessOrEqual_trans lessOrEqual_total _

theorem eq_of_ordered {paths paths' : List Path} (hp : ∀ p ∈ paths, p.Plain)
    (h : ∀ p, p ∈ paths ↔ p ∈ paths') (hd : paths.Nodup) (hd' : paths'.Nodup)
    (ho : paths.Pairwise (lessOrEqual · ·)) (ho' : paths'.Pairwise (lessOrEqual · ·)) :
    paths = paths' := by
  have hperm : List.Perm paths paths' := (List.perm_ext_iff_of_nodup hd hd').2 h
  refine hperm.eq_of_pairwise (fun p q hpm hqm hpq hqp => ?_) ho ho'
  simp only [lessOrEqual,decide_eq_true_eq,List.not_lt] at hpq hqp
  exact sortKey_injective (hp p hpm) (hp q ((h q).2 hqm)) (List.le_antisymm hpq hqp)

/-- The order of plain paths does not depend on how they are listed. -/
theorem sorted_congr {paths paths' : List Path} (hp : ∀ p ∈ paths, p.Plain)
    (h : ∀ p, p ∈ paths ↔ p ∈ paths') : sorted paths = sorted paths' :=
  eq_of_ordered (fun p hpm => hp p (mem_sorted.1 hpm))
    (fun p => by rw [mem_sorted,mem_sorted]; exact h p)
    (nodup_sorted _) (nodup_sorted _) (pairwise_sorted _) (pairwise_sorted _)

def Upright (p : Path) : Prop :=
  ∃ ups names, p.parts = List.replicate ups ".." ++ names ∧ ".." ∉ names

def IsFolded (absolute : Bool) (folded : List String) : Prop :=
  ∃ ups names, folded = names ++ List.replicate ups ".." ∧ ".." ∉ names ∧
  (absolute = true → ups = 0)

theorem IsFolded.foldl {absolute : Bool} {folded : List String} (h : IsFolded absolute folded)
    (parts : List String) : IsFolded absolute (parts.foldl (foldStep absolute) folded) := by
  induction parts generalizing folded with
  | nil => exact h
  | cons part rest ih =>
    obtain ⟨ups,names,rfl,hn,ha⟩ := h
    refine ih ?_
    by_cases hpart : part = ".."
    · subst hpart
      cases names with
      | nil =>
        cases ups with
        | zero =>
          by_cases habs : absolute = true
          · exact ⟨0,[],by simp [foldStep,habs],by simp,fun _ => rfl⟩
          · exact ⟨1,[],by simp [foldStep,habs],by simp,fun h => absurd h habs⟩
        | succ ups =>
          exact ⟨ups + 2,[],by simp [foldStep,List.replicate_succ],by simp,
            fun h => absurd (ha h) (by simp)⟩
      | cons last before =>
        have hlast : last ≠ ".." := by rintro rfl; exact hn List.mem_cons_self
        exact ⟨ups,before,by simp [foldStep,hlast],fun h => hn (List.mem_cons_of_mem _ h),ha⟩
    · exact ⟨ups,part :: names,by simp [foldStep,hpart],by simp [hn,Ne.symm hpart],ha⟩

theorem isFolded_fold (p : Path) : IsFolded p.isAbsolute p.fold.parts.reverse := by
  rw [fold,List.reverse_reverse]
  exact IsFolded.foldl ⟨0,[],rfl,by simp,fun _ => rfl⟩ p.parts

theorem upright_fold (p : Path) : p.fold.Upright := by
  obtain ⟨ups,names,he,hn,-⟩ := isFolded_fold p
  exact ⟨ups,names.reverse,by rw [← List.reverse_reverse p.fold.parts,he]; simp,by simpa using hn⟩

theorem IsFolded.foldl_reverse {absolute : Bool} {folded : List String}
    (h : IsFolded absolute folded) :
    folded.reverse.foldl (foldStep absolute) [] = folded := by
  obtain ⟨ups,names,rfl,hn,ha⟩ := h
  have hdots : ∀ ups, (absolute = true → ups = 0) →
      (List.replicate ups "..").foldl (foldStep absolute) [] = List.replicate ups ".." := by
    intro ups ha
    induction ups with
    | zero => rfl
    | succ ups ih =>
      have hrelative : absolute = false := by
        cases absolute with
        | false => rfl
        | true => cases ha rfl
      rw [List.replicate_succ',List.foldl_append,ih (fun h => by simp [hrelative] at h),
        ← List.replicate_succ']
      cases ups <;> simp [foldStep,hrelative,List.replicate_succ]
  have hnames : ∀ (names folded : List String), ".." ∉ names →
      names.foldl (foldStep absolute) folded = names.reverse ++ folded := by
    intro names
    induction names with
    | nil => exact fun _ _ => rfl
    | cons name rest ih =>
      intro folded hn
      have hname : name ≠ ".." := fun h => hn (h ▸ List.mem_cons_self)
      have hstep :
          foldStep absolute folded name = name :: folded := by rw [foldStep.eq_def,if_neg hname]
      rw [List.foldl_cons,hstep,ih _ fun h => hn (List.mem_cons_of_mem _ h)]
      simp
  rw [List.reverse_append,List.reverse_replicate,List.foldl_append,hdots ups ha,
    hnames _ _ (by simpa using hn)]
  simp

theorem fold_fold (p : Path) : p.fold.fold = p.fold := by
  have hparts : p.fold.parts.foldl (foldStep p.isAbsolute) [] = p.fold.parts.reverse := by
    conv_lhs => rw [← List.reverse_reverse p.fold.parts]
    exact (isFolded_fold p).foldl_reverse
  have habsolute : p.fold.isAbsolute = p.isAbsolute := rfl
  show Path.mk p.fold.anchor (p.fold.parts.foldl (foldStep p.fold.isAbsolute) []).reverse = p.fold
  rw [habsolute,hparts,List.reverse_reverse]

end OperationHooks.Path
