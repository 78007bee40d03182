import OperationHooks.Proofs.Json.Written

set_option autoImplicit false

namespace OperationHooks.Json

variable {digits tail cs left more : List Char} {code : Nat}

theorem readStringFrom_skip (k : Nat) :
    ∀ cs, readStringFrom k cs = readStringFrom 0 (cs.drop k) := by
  induction k with
  | zero => exact fun cs => rfl
  | succ k ih =>
    intro cs
    cases cs with
    | nil => simp [readStringFrom]
    | cons c rest =>
      rw [List.drop_succ_cons,← ih]
      rw [readStringFrom.eq_def]

theorem readStringFrom_close (rest : List Char) :
    readStringFrom 0 ('"' :: rest) = some ([],rest) := by
  rw [readStringFrom.eq_def]
  rfl

theorem readStringFrom_raw {c : Char} (h : isRaw c = true) (rest : List Char) :
    readStringFrom 0 (c :: rest) =
    (readStringFrom 0 rest).map fun (more,left) => (c :: more,left) := by
  simp only [isRaw,Bool.and_eq_true,bne_iff_ne,ne_eq,decide_eq_true_eq] at h
  rw [readStringFrom.eq_def]
  simp only [h.1.1,h.1.2,Nat.not_lt.2 h.2,if_false]
  cases readStringFrom 0 rest <;> rfl

theorem readStringFrom_escape {e value : Char} {width : Nat}
    (h : readEscape e tail = some (value,width)) :
    readStringFrom 0 ('\\' :: e :: tail) =
      (readStringFrom 0 (tail.drop width)).map fun (more,left) => (value :: more,left) := by
  have hskip : readStringFrom (width + 1) (e :: tail) = readStringFrom 0 (tail.drop width) := by
    rw [readStringFrom_skip,List.drop_succ_cons]
  rw [readStringFrom.eq_def]
  dsimp only
  rw [if_neg (by decide),if_pos rfl,h,Option.bind_eq_bind,Option.bind_some,hskip]
  cases readStringFrom 0 (tail.drop width) <;> rfl

theorem readEscape_short {mark value : Char} (h : (mark,value) ∈ shortEscapes) (tail : List Char) :
    readEscape mark tail = some (value,0) := by
  simp only [shortEscapes,List.mem_cons,Prod.mk.injEq,List.not_mem_nil,or_false] at h
  rcases h with h | h | h | h | h | h | h | h <;> obtain ⟨rfl,rfl⟩ := h <;> rfl

theorem fourHex?_append (hlen : digits.length = 4) (h : Decimal.natural? 16 digits = some code)
    (tail : List Char) :
    fourHex? (digits ++ tail) = some code := by
  obtain ⟨a,b,c,d,rfl⟩ : ∃ a b c d, digits = [a,b,c,d] := by
    match digits,hlen with
    | [a,b,c,d],_ => exact ⟨a,b,c,d,rfl⟩
  exact h

theorem exists_fourHex (h : fourHex? cs = some code) : ∃ digits : List Char, digits.length = 4 ∧
    Decimal.natural? 16 digits = some code ∧ cs = digits ++ cs.drop 4 := by
  unfold fourHex? at h
  split at h
  · exact ⟨_,rfl,h,rfl⟩
  · cases h

def nextCode? (tail : List Char) : Option Nat :=
  if tail.take 2 == ['\\','u'] then fourHex? (tail.drop 2) else none

/-- An escape by a code is one character, and so are two that form a pair. -/
theorem readUnicode_append (hlen : digits.length = 4) (h : Decimal.natural? 16 digits = some code)
    (tail : List Char) : readUnicode (digits ++ tail) =
      if Part.isHigh code && tail.take 2 == ['\\','u'] then
        (nextCode? tail).map fun low =>
          if Part.isLow low then (Part.pair code low,10)
          else ((Part.unicode digits code hlen h).char,4)
      else some ((Part.unicode digits code hlen h).char,4) := by
  have hdrop : ∀ k, (digits ++ tail).drop (4 + k) = tail.drop k := fun k => by
    rw [← hlen,List.drop_length_add_append]
  have h4 : (digits ++ tail).drop 4 = tail := hdrop 0
  have h6 : (digits ++ tail).drop 6 = tail.drop 2 := hdrop 2
  have hchar : (if (decide (0xD800 ≤ code) && decide (code < 0xE000)) = true then pure ('\uFFFD',4)
      else pure (Char.ofNat code,4) : Option (Char × Nat)) =
        some ((Part.unicode digits code hlen h).char,4) := by
    unfold Part.char Part.isSurrogate
    dsimp only
    split <;> rfl
  unfold readUnicode
  rw [fourHex?_append hlen h,h4,h6,Option.bind_eq_bind,Option.bind_some]
  have hhigh : (decide (0xD800 ≤ code) && decide (code < 0xDC00)) = Part.isHigh code := rfl
  have hlow : ∀ low : Nat, (decide (0xDC00 ≤ low) && decide (low < 0xE000)) = Part.isLow low :=
    fun _ => rfl
  simp only [hchar,hhigh,hlow]
  by_cases hpair : (Part.isHigh code && tail.take 2 == ['\\','u']) = true
  · rw [if_pos hpair,if_pos hpair,nextCode?,if_pos (Bool.and_eq_true_iff.1 hpair).2]
    cases fourHex? (tail.drop 2) with
    | none => rfl
    | some low =>
      simp only [Option.bind_some,Option.map_some]
      by_cases hlow : Part.isLow low = true
      · rw [if_pos hlow,if_pos hlow]
        rfl
      · rw [if_neg hlow,if_neg hlow]
  · rw [if_neg hpair,if_neg hpair]

theorem nextCode?_inner (q : Quotation) (left : List Char) :
    nextCode? (Quotation.inner q ++ '"' :: left) = q.head?.bind Part.code? ∧
      ((Quotation.inner q ++ '"' :: left).take 2 == ['\\','u']) =
        (q.head?.bind Part.code?).isSome := by
  have hother : ∀ tail : List Char, (tail.take 2 == ['\\','u']) = false →
      nextCode? tail = none ∧ (tail.take 2 == ['\\','u']) = (none : Option Nat).isSome :=
        fun tail h =>
    ⟨by rw [nextCode?,h]; rfl,h⟩
  cases q with
  | nil => exact hother _ (by simp [Quotation.inner])
  | cons p rest =>
    cases p with
    | raw c h =>
      have hc : c ≠ '\\' := by
        simp only [isRaw,Bool.and_eq_true,bne_iff_ne,ne_eq] at h
        exact h.1.2
      exact hother _ (by simp [Quotation.inner,Part.text,hc])
    | short mark value h =>
      have hm : mark ≠ 'u' := by
        rintro rfl
        revert h
        simp [shortEscapes]
      exact hother _ (by simp [Quotation.inner,Part.text,hm])
    | unicode digits code hlen h =>
      have htext : Quotation.inner (Part.unicode digits code hlen h :: rest) ++ '"' :: left =
          '\\' :: 'u' :: (digits ++ (Quotation.inner rest ++ '"' :: left)) := by
        simp [Quotation.inner,Part.text]
      rw [htext]
      exact ⟨fourHex?_append hlen h _,rfl⟩

theorem readEscape_u (tail : List Char) : readEscape 'u' tail = readUnicode tail := rfl

theorem readStringFrom_part {p : Part} {q : Quotation} (hp : ∀ p' ∈ q.head?, joined? p p' = none) :
    readStringFrom 0 (p.text ++ (Quotation.inner q ++ '"' :: left)) =
      (readStringFrom 0 (Quotation.inner q ++ '"' :: left)).map fun (more,left) =>
        (p.char :: more,left) := by
  cases p with
  | raw c h => exact readStringFrom_raw h _
  | short mark value h => exact readStringFrom_escape (readEscape_short h _)
  | unicode digits code hlen h =>
    obtain ⟨hnext,htake⟩ := nextCode?_inner q left
    have hread : readEscape 'u' (digits ++ (Quotation.inner q ++ '"' :: left)) =
        some ((Part.unicode digits code hlen h).char,4) := by
      rw [readEscape_u,readUnicode_append hlen h,hnext,htake]
      cases hq : q.head? with
      | none => simp
      | some p' =>
        have hjoined := hp p' hq
        rw [joined?,Part.code?] at hjoined
        cases hcode : p'.code? with
        | none => simp [hcode]
        | some low => simp_all
    have hread' := readStringFrom_escape hread
    rwa [← hlen,List.drop_left] at hread'

theorem readStringFrom_pair {p p' : Part} {c : Char} (h : joined? p p' = some c)
    (tail : List Char) :
    readStringFrom 0 (p.text ++ (p'.text ++ tail)) =
      (readStringFrom 0 tail).map fun (more,left) => (c :: more,left) := by
  cases p with
  | unicode digits code hlen hd =>
    cases p' with
    | unicode digits' low hlen' hd' =>
      simp only [joined?,Part.code?,Option.bind_eq_bind,Option.bind_some] at h
      split at h
      · rename_i hpair
        obtain rfl := Option.some.inj h
        obtain ⟨hhigh,hlow⟩ := Bool.and_eq_true_iff.1 hpair
        have hnext : nextCode? ('\\' :: 'u' :: (digits' ++ tail)) = some low :=
          fourHex?_append hlen' hd' tail
        have hread :
            readEscape 'u' (digits ++ '\\' :: 'u' :: (digits' ++ tail)) =
            some (Part.pair code low,10) := by
          rw [readEscape_u,readUnicode_append hlen hd,hnext,hhigh]
          simp [hlow]
        have hdrop : (digits ++ '\\' :: 'u' :: (digits' ++ tail)).drop 10 = tail := by
          rw [show (10 : Nat) = digits.length + (2 + digits'.length) by omega,
            List.drop_length_add_append,
            Nat.add_comm,List.drop_succ_cons,List.drop_succ_cons,List.drop_left]
        have hread' := readStringFrom_escape hread
        rwa [hdrop] at hread'
      · cases h
    | _ => simp [joined?,Part.code?] at h
  | _ => simp [joined?,Part.code?] at h

theorem readStringFrom_inner (q : Quotation) (left : List Char) :
    readStringFrom 0 (Quotation.inner q ++ '"' :: left) = some (Quotation.chars q,left) := by
  induction q using Quotation.chars.induct with
  | case1 => exact readStringFrom_close left
  | case2 p =>
    have hlast : ∀ p' ∈ [].head?, joined? p p' = none := fun p' hp => by cases hp
    have hread : readStringFrom 0 (p.text ++ (Quotation.inner [] ++ '"' :: left)) = _ :=
      readStringFrom_part hlast
    simpa [Quotation.inner,readStringFrom_close,Quotation.chars] using hread
  | case3 p p' rest c hjoined ih =>
    have hinner : Quotation.inner (p :: p' :: rest) ++ '"' :: left =
        p.text ++ (p'.text ++ (Quotation.inner rest ++ '"' :: left)) := by simp [Quotation.inner]
    rw [hinner,readStringFrom_pair hjoined,ih,Quotation.chars,hjoined]
    rfl
  | case4 p p' rest hjoined ih =>
    have hinner : Quotation.inner (p :: p' :: rest) ++ '"' :: left =
        p.text ++ (Quotation.inner (p' :: rest) ++ '"' :: left) := by simp [Quotation.inner]
    rw [hinner,readStringFrom_part (fun x hx => by rw [← Option.some.inj hx]; exact hjoined),ih,
      Quotation.chars,hjoined]
    rfl

theorem readString_text (q : Quotation) (left : List Char) :
    readString (Quotation.text q ++ left) = some (Quotation.value q,left) := by
  rw [Quotation.text,List.cons_append,List.append_assoc,List.singleton_append,readString,
    readStringFrom_inner]
  rfl

theorem chars_cons {p : Part} {q : Quotation} (hp : ∀ p' ∈ q.head?, joined? p p' = none) :
    Quotation.chars (p :: q) = p.char :: Quotation.chars q := by
  cases q with
  | nil => rfl
  | cons p' rest => rw [Quotation.chars,hp p' rfl]

theorem readEscape_eq_some {e value : Char} {width : Nat}
    (h : readEscape e tail = some (value,width)) :
    (e,value) ∈ shortEscapes ∧ width = 0 ∨ e = 'u' ∧ readUnicode tail = some (value,width) := by
  unfold readEscape at h
  split at h
  case h_9 => exact .inr ⟨rfl,h⟩
  case h_10 => cases h
  all_goals
    obtain ⟨rfl,rfl⟩ := Prod.mk.inj (Option.some.inj h)
    exact .inl ⟨by decide,rfl⟩

theorem joined?_unicode (hlen : digits.length = 4)
    (h : Decimal.natural? 16 digits = some code) (p : Part) :
    joined? (.unicode digits code hlen h) p = p.code?.bind fun low =>
      if Part.isHigh code && Part.isLow low then some (Part.pair code low) else none := rfl

/-- What an escape by a code takes: a code for itself, or two that form a pair. -/
theorem exists_unicode {value : Char} {width : Nat} (h : readUnicode tail = some (value,width)) :
    ∃ digits code, ∃ hlen : digits.length = 4, ∃ hd : Decimal.natural? 16 digits = some code,
      (value = (Part.unicode digits code hlen hd).char ∧ tail = digits ++ tail.drop width ∧
        ∀ q left, tail.drop width = Quotation.inner q ++ '"' :: left →
          ∀ p' ∈ q.head?, joined? (.unicode digits code hlen hd) p' = none) ∨
      ∃ p', joined? (.unicode digits code hlen hd) p' = some value ∧
      tail = digits ++ (p'.text ++ tail.drop width) := by
  cases hcode : fourHex? tail with
  | none =>
    rw [readUnicode,hcode] at h
    cases h
  | some code =>
    obtain ⟨digits,hlen,hd,htail⟩ := exists_fourHex hcode
    refine ⟨digits,code,hlen,hd,?_⟩
    rw [htail,readUnicode_append hlen hd] at h
    generalize tail.drop 4 = behind at htail h
    subst htail
    have hdrop : (digits ++ behind).drop 4 = behind := by rw [← hlen,List.drop_left]
    split at h
    · rename_i hpair
      cases hnext : nextCode? behind with
      | none => rw [hnext] at h; cases h
      | some low =>
        rw [hnext,Option.map_some] at h
        split at h
        · rename_i hlow
          obtain ⟨rfl,rfl⟩ := Prod.mk.inj (Option.some.inj h)
          right
          obtain ⟨hhigh,hmark⟩ := Bool.and_eq_true_iff.1 hpair
          rw [nextCode?,if_pos hmark] at hnext
          obtain ⟨digits',hlen',hd',hbehind⟩ := exists_fourHex hnext
          have hmark' : behind = '\\' :: 'u' :: behind.drop 2 := by
            rw [← List.take_append_drop 2 behind,eq_of_beq hmark]
            rfl
          refine ⟨.unicode digits' low hlen' hd',by simp [joined?,Part.code?,hhigh,hlow],?_⟩
          have hdrop10 : (digits ++ behind).drop 10 = (behind.drop 2).drop 4 := by
            rw [show (10 : Nat) = digits.length + 6 by omega,
              List.drop_length_add_append,List.drop_drop]
          rw [hdrop10,Part.text,List.cons_append,List.cons_append,← hbehind,← hmark']
        · rename_i hlow
          obtain ⟨rfl,rfl⟩ := Prod.mk.inj (Option.some.inj h)
          refine .inl ⟨rfl,by rw [hdrop],fun q left hq p' hp' => ?_⟩
          rw [hdrop] at hq
          rw [hq,(nextCode?_inner q left).1,hp',Option.bind_some] at hnext
          simp [joined?_unicode,hnext,hlow]
    · rename_i hpair
      obtain ⟨rfl,rfl⟩ := Prod.mk.inj (Option.some.inj h)
      refine .inl ⟨rfl,by rw [hdrop],fun q left hq p' hp' => ?_⟩
      rw [hdrop] at hq
      rw [hq,(nextCode?_inner q left).2,hp',Option.bind_some] at hpair
      cases hlow : p'.code? with
      | none => simp [joined?_unicode,hlow]
      | some low =>
        rw [hlow,Option.isSome_some,Bool.and_true] at hpair
        simp [joined?_unicode,hlow,hpair]

theorem exists_inner (cs : List Char) : ∀ more left, readStringFrom 0 cs = some (more,left) →
    ∃ q : Quotation, cs = Quotation.inner q ++ '"' :: left ∧ Quotation.chars q = more := by
  induction hn : cs.length using Nat.strongRecOn generalizing cs with
  | _ n ih =>
    intro more left h
    subst hn
    cases cs with
    | nil => cases h
    | cons c rest =>
      by_cases hquote : c = '"'
      · subst hquote
        rw [readStringFrom_close] at h
        obtain ⟨rfl,rfl⟩ := Prod.mk.inj (Option.some.inj h)
        exact ⟨[],rfl,rfl⟩
      by_cases hslash : c = '\\'
      · subst hslash
        cases rest with
        | nil => cases h
        | cons e tail =>
          cases hescape : readEscape e tail with
          | none =>
            rw [readStringFrom.eq_def] at h
            dsimp only at h
            rw [if_neg (by decide),if_pos rfl,hescape] at h
            cases h
          | some found =>
            obtain ⟨value,width⟩ := found
            rw [readStringFrom_escape hescape] at h
            obtain ⟨⟨more',left'⟩,hrest,hmore⟩ := Option.map_eq_some_iff.1 h
            obtain ⟨rfl,rfl⟩ := Prod.mk.inj hmore
            obtain ⟨q,hq,hchars⟩ := ih _ (by simp; omega) (tail.drop width) rfl more' left' hrest
            rcases readEscape_eq_some hescape with ⟨hshort,rfl⟩ | ⟨rfl,hunicode⟩
            · refine ⟨.short e value hshort :: q,?_,?_⟩
              · rw [List.drop_zero] at hq
                simp [Quotation.inner,Part.text,hq]
              · rw [chars_cons (fun _ _ => rfl),hchars]
                rfl
            · obtain ⟨digits,code,hlen,hd,⟨rfl,htail,halone⟩ | ⟨p',hjoined,htail⟩⟩ :=
                exists_unicode hunicode
              · refine ⟨.unicode digits code hlen hd :: q,?_,?_⟩
                · rw [htail,hq]
                  simp [Quotation.inner,Part.text]
                · rw [chars_cons (halone q left' hq),hchars]
              · refine ⟨.unicode digits code hlen hd :: p' :: q,?_,?_⟩
                · rw [htail,hq]
                  simp [Quotation.inner,Part.text]
                · rw [Quotation.chars,hjoined,hchars]
      · by_cases hcontrol : c.toNat < 32
        · rw [readStringFrom.eq_def] at h
          simp [hquote,hslash,hcontrol] at h
        · have hraw : isRaw c = true := by simp [isRaw,hquote,hslash,Nat.le_of_not_lt hcontrol]
          rw [readStringFrom_raw hraw] at h
          obtain ⟨⟨more',left'⟩,hrest,hmore⟩ := Option.map_eq_some_iff.1 h
          obtain ⟨rfl,rfl⟩ := Prod.mk.inj hmore
          obtain ⟨q,rfl,hchars⟩ := ih _ (by simp) rest rfl more' left' hrest
          exact ⟨.raw c hraw :: q,rfl,by rw [chars_cons (fun _ _ => rfl),hchars]; rfl⟩

theorem exists_quotation {s : String} (h : readString cs = some (s,left)) :
    ∃ q : Quotation, cs = Quotation.text q ++ left ∧ Quotation.value q = s := by
  unfold readString at h
  split at h
  · obtain ⟨⟨more,left'⟩,hrest,hmore⟩ := Option.map_eq_some_iff.1 h
    obtain ⟨rfl,rfl⟩ := Prod.mk.inj hmore
    obtain ⟨q,rfl,rfl⟩ := exists_inner _ _ _ hrest
    exact ⟨q,by simp [Quotation.text],rfl⟩
  · cases h

end OperationHooks.Json
