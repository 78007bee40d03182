import OperationHooks.Proofs.Json.Numbers
import OperationHooks.Proofs.Json.Strings

set_option autoImplicit false

namespace OperationHooks.Json

theorem skipSpace_gap (gap : Gap) (cs : List Char) :
    skipSpace (gap.chars ++ cs) = skipSpace cs := by
  rw [skipSpace,skipSpace,List.dropWhile_append_of_pos]
  exact fun c hc => List.all_eq_true.1 gap.blank c hc

theorem skipSpace_cons {c : Char} (h : isSpace c = false) (cs : List Char) :
    skipSpace (c :: cs) = c :: cs := by
  simp [skipSpace,h]

/-- What is skipped in front of a text is a gap. -/
theorem exists_gap (cs : List Char) : ∃ gap : Gap, cs = gap.chars ++ skipSpace cs :=
  ⟨⟨cs.takeWhile isSpace,by simp⟩,List.takeWhile_append_dropWhile.symm⟩

variable {cs left rest : List Char} {f : Gap → List Char} {fuel : Nat}

theorem skipSpace_skipSpace (cs : List Char) : skipSpace (skipSpace cs) = skipSpace cs := by
  obtain ⟨gap,hgap⟩ := exists_gap cs
  calc skipSpace (skipSpace cs) =
    skipSpace (gap.chars ++ skipSpace cs) := (skipSpace_gap gap _).symm
    _ = skipSpace cs := by rw [← hgap]

theorem readValue_skipSpace (fuel : Nat) (cs : List Char) :
    readValue fuel (skipSpace cs) = readValue fuel cs := by
  cases fuel with
  | zero => simp [readValue]
  | succ fuel => rw [readValue,readValue,skipSpace_skipSpace]

theorem readItems_skipSpace (fuel : Nat) (cs : List Char) :
    readItems fuel (skipSpace cs) = readItems fuel cs := by
  cases fuel with
  | zero => simp [readItems]
  | succ fuel => rw [readItems,readItems,readValue_skipSpace]

theorem readEntries_skipSpace (fuel : Nat) (cs : List Char) :
    readEntries fuel (skipSpace cs) = readEntries fuel cs := by
  cases fuel with
  | zero => simp [readEntries]
  | succ fuel => rw [readEntries,readEntries,skipSpace_skipSpace]

def firsts : List Char := ['{','[','"','t','f','n','-','0','1','2','3','4','5','6','7','8','9']

theorem mem_firsts_of_isDigit {c : Char} (h : Decimal.isDigit c = true) : c ∈ firsts := by
  simp only [Decimal.isDigit,Bool.and_eq_true,decide_eq_true_eq,Char.le_def,
    UInt32.le_iff_toNat_le] at h
  have hc : c = Char.ofNat c.toNat := (Char.ofNat_toNat c).symm
  have hlow : 48 ≤ c.toNat := h.1
  have hhigh : c.toNat ≤ 57 := h.2
  rw [hc]
  generalize c.toNat = n at hlow hhigh
  obtain rfl | rfl | rfl | rfl | rfl | rfl | rfl | rfl | rfl | rfl :
      n = 48 ∨ n = 49 ∨ n = 50 ∨ n = 51 ∨ n = 52 ∨ n = 53 ∨ n = 54 ∨ n = 55 ∨ n = 56 ∨
      n = 57 := by omega
  all_goals decide

theorem Numeral.exists_first (n : Numeral) : ∃ c more, n.text = c :: more ∧ c ∈ firsts := by
  obtain ⟨first,more,hw⟩ := List.exists_cons_of_ne_nil n.some_whole
  have hd : Decimal.isDigit first = true := List.all_eq_true.1 n.all_whole first (by simp [hw])
  unfold Numeral.text
  cases n.negative with
  | true => exact ⟨'-',_,rfl,by decide⟩
  | false => exact ⟨first,_,by rw [Numeral.body,hw]; rfl,mem_firsts_of_isDigit hd⟩

theorem Written.exists_first (f : Gap → List Char) (w : Written) :
    ∃ c more, w.spell f = c :: more ∧ c ∈ firsts := by
  cases w with
  | number n =>
    rw [Written.spell]
    exact n.exists_first
  | word w => cases w <;> exact ⟨_,_,rfl,by decide⟩
  | quoted q => exact ⟨'"',_,by rw [Written.spell,Quotation.text],by decide⟩
  | emptyList gap | list items => exact ⟨'[',_,by rw [Written.spell],by decide⟩
  | emptyTable gap | table entries => exact ⟨'{',_,by rw [Written.spell],by decide⟩

theorem isSpace_of_mem_firsts {c : Char} (h : c ∈ firsts) :
    isSpace c = false ∧ c ≠ ']' ∧ c ≠ '}' := by
  have hall : (firsts.all fun c => !isSpace c && c != ']' && c != '}') = true := by decide
  simpa [and_assoc] using List.all_eq_true.1 hall c h

theorem skipSpace_spell (gap : Gap) (w : Written) (rest : List Char) :
    skipSpace (gap.chars ++ (w.spell f ++ rest)) = w.spell f ++ rest := by
  obtain ⟨c,more,hw,hc⟩ := w.exists_first f
  rw [skipSpace_gap,hw,List.cons_append,skipSpace_cons (isSpace_of_mem_firsts hc).1]

/-- What stands behind a value in a list or table ends it. -/
theorem ends_gap (gap : Gap) {c : Char} (hc : c = ',' ∨ c = ']' ∨ c = '}') (rest : List Char) :
    Ends (gap.chars ++ c :: rest) := by
  intro d hd
  cases hg : gap.chars with
  | nil =>
    rw [hg] at hd
    obtain rfl : c = d := Option.some.inj hd
    rcases hc with rfl | rfl | rfl <;> decide
  | cons g more =>
    rw [hg] at hd
    obtain rfl : g = d := Option.some.inj hd
    have hspace : isSpace g = true := List.all_eq_true.1 gap.blank g (by simp [hg])
    simp only [isSpace,Bool.or_eq_true,beq_iff_eq] at hspace
    rcases hspace with ((rfl | rfl) | rfl) | rfl <;> decide

theorem expectWord_append (word : String) (v : Datum) (rest : List Char) :
    expectWord word v (word.toList ++ rest) = some (v,rest) := by
  have hlen : word.length = word.toList.length := word.length_toList.symm
  rw [expectWord,if_pos (List.isPrefixOf_iff_prefix.2 (List.prefix_append ..)),hlen,List.drop_left]

section Steps

variable {v : Datum} {vs : List Datum} {entries : List (Datum × Datum)} {s : String}
  {after inner more : List Char}

theorem readValue_quote (h : skipSpace cs = '"' :: rest) :
    readValue (fuel + 1) cs = (readString ('"' :: rest)).map fun (s,left) => (.text s,left) := by
  rw [readValue,h]
  rfl

def listFrom (fuel : Nat) (inner : List Char) : Option (Datum × List Char) :=
  match inner with
  | ']' :: left => some (.list [],left)
  | inner => (readItems fuel inner).map fun (items,left) => (.list items,left)

def tableFrom (fuel : Nat) (inner : List Char) : Option (Datum × List Char) :=
  match inner with
  | '}' :: left => some (.table [],left)
  | inner => (readEntries fuel inner).map fun (entries,left) => (.table entries,left)

def entriesFrom (fuel : Nat) (s : String) (cs : List Char) :
    Option (List (Datum × Datum) × List Char) :=
  match readValue fuel cs with
  | none => none
  | some (value,after) =>
    match skipSpace after with
    | '}' :: left => some ([(.text s,value)],left)
    | ',' :: rest => (readEntries fuel rest).map fun (entries,left) =>
      ((.text s,value) :: entries,left)
    | _ => none

theorem readValue_bracket (h : skipSpace cs = '[' :: rest) :
    readValue (fuel + 1) cs = listFrom fuel (skipSpace rest) := by
  rw [readValue,h]
  rfl

theorem readValue_brace (h : skipSpace cs = '{' :: rest) :
    readValue (fuel + 1) cs = tableFrom fuel (skipSpace rest) := by
  rw [readValue,h]
  rfl

theorem readEntries_colon (hk : readString (skipSpace cs) = some (s,inner))
    (hcolon : skipSpace inner = ':' :: more) :
    readEntries (fuel + 1) cs = entriesFrom fuel s more := by
  rw [readEntries,hk]
  dsimp only
  rw [hcolon]
  rfl

theorem readValue_emptyList (h : skipSpace cs = '[' :: rest)
    (hclose : skipSpace rest = ']' :: left) :
    readValue (fuel + 1) cs = some (.list [],left) := by
  rw [readValue_bracket h,hclose]
  rfl

theorem readValue_emptyTable (h : skipSpace cs = '{' :: rest)
    (hclose : skipSpace rest = '}' :: left) :
    readValue (fuel + 1) cs = some (.table [],left) := by
  rw [readValue_brace h,hclose]
  rfl

theorem readValue_list (h : skipSpace cs = '[' :: rest)
    (hopen : ∀ left, skipSpace rest ≠ ']' :: left) :
    readValue (fuel + 1) cs = (readItems fuel rest).map fun (items,left) => (.list items,left) := by
  rw [readValue_bracket h,← readItems_skipSpace,listFrom]
  exact hopen

theorem readValue_table (h : skipSpace cs = '{' :: rest)
    (hopen : ∀ left, skipSpace rest ≠ '}' :: left) :
    readValue (fuel + 1) cs = (readEntries fuel rest).map fun (entries,left) =>
      (.table entries,left) := by
  rw [readValue_brace h,← readEntries_skipSpace,tableFrom]
  exact hopen

theorem readItems_last (hv : readValue fuel cs = some (v,after))
    (h : skipSpace after = ']' :: left) :
    readItems (fuel + 1) cs = some ([v],left) := by
  rw [readItems,hv]
  dsimp only
  rw [h]
  rfl

theorem readItems_more (hv : readValue fuel cs = some (v,after)) (h : skipSpace after = ',' :: rest)
    (hrest : readItems fuel rest = some (vs,left)) :
      readItems (fuel + 1) cs = some (v :: vs,left) := by
  rw [readItems,hv]
  dsimp only
  rw [h]
  exact congrArg (Option.map _) hrest

theorem readEntries_last (hk : readString (skipSpace cs) = some (s,inner))
    (hcolon : skipSpace inner = ':' :: more)
    (hv : readValue fuel more = some (v,after)) (h : skipSpace after = '}' :: left) :
    readEntries (fuel + 1) cs = some ([(.text s,v)],left) := by
  rw [readEntries_colon hk hcolon,entriesFrom,hv]
  dsimp only
  rw [h]
  rfl

theorem readEntries_more (hk : readString (skipSpace cs) = some (s,inner))
    (hcolon : skipSpace inner = ':' :: more)
    (hv : readValue fuel more = some (v,after)) (h : skipSpace after = ',' :: rest)
    (hrest : readEntries fuel rest = some (entries,left)) :
    readEntries (fuel + 1) cs = some ((.text s,v) :: entries,left) := by
  rw [readEntries_colon hk hcolon,entriesFrom,hv]
  dsimp only
  rw [h]
  exact congrArg (Option.map _) hrest

end Steps

theorem readValue_word (w : Word) (gap : Gap) (rest : List Char) (fuel : Nat) :
    readValue (fuel + 1) (gap.chars ++ (w.text ++ rest)) = some (w.datum,rest) := by
  have hskip := skipSpace_spell (f := Gap.chars) gap (.word w) rest
  rw [Written.spell] at hskip
  rw [readValue,hskip]
  cases w with
  | null => exact expectWord_append "null" _ rest
  | yes => exact expectWord_append "true" _ rest
  | no => exact expectWord_append "false" _ rest

theorem readValue_number (n : Numeral) (gap : Gap) (hr : Ends rest) (fuel : Nat) :
    readValue (fuel + 1) (gap.chars ++ (n.text ++ rest)) = some (n.datum,rest) := by
  have hskip := skipSpace_spell (f := Gap.chars) gap (.number n) rest
  rw [Written.spell] at hskip
  have hread := readNumber_text n hr
  obtain ⟨c,more,hc,hmem⟩ : ∃ c more, n.text = c :: more ∧
    (c = '-' ∨ Decimal.isDigit c = true) := by
    obtain ⟨first,more,hw⟩ := List.exists_cons_of_ne_nil n.some_whole
    have hd : Decimal.isDigit first = true := List.all_eq_true.1 n.all_whole first (by simp [hw])
    unfold Numeral.text
    cases n.negative with
    | true => exact ⟨'-',_,rfl,.inl rfl⟩
    | false => exact ⟨first,_,by rw [Numeral.body,hw]; rfl,.inr hd⟩
  have hne : ∀ d ∈ ['{','[','"','t','f','n'], c ≠ d := by
    rintro d hd rfl
    rcases hmem with rfl | hdigit
    · revert hd; decide
    · simp only [List.mem_cons,List.not_mem_nil,or_false] at hd
      rcases hd with rfl | rfl | rfl | rfl | rfl | rfl <;> cases hdigit
  rw [readValue,hskip]
  rw [hc,List.cons_append] at hread ⊢
  split
  all_goals first | exact hread | skip
  all_goals
    rename_i heq
    exact absurd (List.cons.inj heq).1 (hne _ (by decide))

theorem readValue_quoted (q : Quotation) (gap : Gap) (rest : List Char) (fuel : Nat) :
    readValue (fuel + 1) (gap.chars ++ (Quotation.text q ++ rest)) =
      some (.text (Quotation.value q),rest) := by
  have hskip := skipSpace_spell (f := Gap.chars) gap (.quoted q) rest
  rw [Written.spell] at hskip
  have hread := readString_text q rest
  rw [Quotation.text,List.cons_append] at hread hskip
  rw [Quotation.text,List.cons_append,readValue_quote hskip,hread]
  rfl

theorem Items.open_spell (items : Items) (rest left : List Char) :
    skipSpace (items.spell Gap.chars ++ rest) ≠ ']' :: left := by
  obtain ⟨gap,w,tail,htail⟩ : ∃ (gap : Gap) (w : Written) (tail : List Char),
      items.spell Gap.chars ++ rest = gap.chars ++ (w.spell Gap.chars ++ tail) := by
    cases items with
    | last before item after =>
      exact ⟨before,item,_,by simp only [Items.spell,List.append_assoc]; rfl⟩
    | more before item after more =>
      exact ⟨before,item,_,by simp only [Items.spell,List.append_assoc]; rfl⟩
  obtain ⟨c,more,hw,hc⟩ := w.exists_first Gap.chars
  rw [htail,skipSpace_spell,hw]
  exact fun heq => (isSpace_of_mem_firsts hc).2.1 (List.cons.inj heq).1

theorem Label.skipSpace_spell (l : Label) (rest : List Char) :
    skipSpace (l.spell Gap.chars ++ rest) =
    Quotation.text l.key ++ (l.behindKey.chars ++ ':' :: (l.behindColon.chars ++ rest)) := by
  rw [Label.spell,List.append_assoc,List.append_assoc,List.append_assoc,skipSpace_gap,
    Quotation.text,List.cons_append,
    skipSpace_cons (by decide)]
  simp only [List.cons_append]

theorem Entries.open_spell (entries : Entries) (rest left : List Char) :
    skipSpace (entries.spell Gap.chars ++ rest) ≠ '}' :: left := by
  obtain ⟨label,tail,htail⟩ : ∃ (label : Label) (tail : List Char),
      entries.spell Gap.chars ++ rest = label.spell Gap.chars ++ tail := by
    cases entries with
    | last label value after => exact ⟨label,_,by simp only [Entries.spell,List.append_assoc]; rfl⟩
    | more label value after more =>
      exact ⟨label,_,by simp only [Entries.spell,List.append_assoc]; rfl⟩
  rw [htail,Label.skipSpace_spell,Quotation.text]
  exact fun heq => absurd (List.cons.inj heq).1 (by decide)

theorem one_le_length_spell (w : Written) : 1 ≤ (w.spell f).length := by
  obtain ⟨c,more,hw,-⟩ := w.exists_first f
  rw [hw]
  exact Nat.le_add_left ..

theorem skipSpace_gap_cons (gap : Gap) {c : Char} (h : isSpace c = false) (rest : List Char) :
    skipSpace (gap.chars ++ c :: rest) = c :: rest := by
  rw [skipSpace_gap,skipSpace_cons h]

mutual

/-- The reader reads a value as it is written. -/
theorem readValue_spell (w : Written) (gap : Gap) (rest : List Char) (hr : Ends rest) (fuel : Nat)
    (hf : 2 * (w.spell Gap.chars).length ≤ fuel) :
    readValue fuel (gap.chars ++ (w.spell Gap.chars ++ rest)) = some (w.datum,rest) := by
  have hone := one_le_length_spell (f := Gap.chars) w
  obtain ⟨fuel,rfl⟩ : ∃ k, fuel = k + 1 := Nat.exists_eq_add_one.2 (by omega)
  have hskip := skipSpace_spell (f := Gap.chars) gap w rest
  match w with
  | .word w => rw [Written.spell,Written.datum]; exact readValue_word w gap rest fuel
  | .number n => rw [Written.spell,Written.datum]; exact readValue_number n gap hr fuel
  | .quoted q => rw [Written.spell,Written.datum]; exact readValue_quoted q gap rest fuel
  | .emptyList inside =>
    rw [Written.spell,List.cons_append,List.append_assoc,List.singleton_append] at hskip ⊢
    rw [readValue_emptyList hskip (skipSpace_gap_cons inside (by decide) rest),Written.datum]
  | .emptyTable inside =>
    rw [Written.spell,List.cons_append,List.append_assoc,List.singleton_append] at hskip ⊢
    rw [readValue_emptyTable hskip (skipSpace_gap_cons inside (by decide) rest),Written.datum]
  | .list items =>
    rw [Written.spell,List.length_cons] at hf
    rw [Written.spell,List.cons_append] at hskip ⊢
    rw [readValue_list hskip (items.open_spell rest),readItems_spell items rest fuel (by omega),
      Written.datum]
    rfl
  | .table entries =>
    rw [Written.spell,List.length_cons] at hf
    rw [Written.spell,List.cons_append] at hskip ⊢
    rw [readValue_table hskip (entries.open_spell rest),
      readEntries_spell entries rest fuel (by omega),Written.datum]
    rfl

theorem readItems_spell (items : Items) (rest : List Char) (fuel : Nat)
    (hf : 2 * (items.spell Gap.chars).length + 1 ≤ fuel) :
    readItems fuel (items.spell Gap.chars ++ rest) = some (items.data,rest) := by
  obtain ⟨fuel,rfl⟩ : ∃ k, fuel = k + 1 := Nat.exists_eq_add_one.2 (by omega)
  match items with
  | .last before item after =>
    simp only [Items.spell,List.length_append,List.length_singleton] at hf
    have hitem := readValue_spell item before (after.chars ++ ']' :: rest)
      (ends_gap after (by simp) rest) fuel
      (by omega)
    simp only [Items.spell,List.append_assoc,List.singleton_append]
    rw [readItems_last hitem (skipSpace_gap_cons after (by decide) rest),Items.data]
  | .more before item after more =>
    simp only [Items.spell,List.length_append,List.length_cons] at hf
    have hitem := readValue_spell item before (after.chars ++ ',' :: (more.spell Gap.chars ++ rest))
      (ends_gap after (by simp) _) fuel (by omega)
    simp only [Items.spell,List.append_assoc,List.cons_append]
    rw [readItems_more hitem (skipSpace_gap_cons after (by decide) _)
      (readItems_spell more rest fuel (by omega)),
      Items.data]

theorem readEntries_spell (entries : Entries) (rest : List Char) (fuel : Nat)
    (hf : 2 * (entries.spell Gap.chars).length + 1 ≤ fuel) :
    readEntries fuel (entries.spell Gap.chars ++ rest) = some (entries.data,rest) := by
  obtain ⟨fuel,rfl⟩ : ∃ k, fuel = k + 1 := Nat.exists_eq_add_one.2 (by omega)
  have hkey : ∀ (l : Label) (tail : List Char), readString (skipSpace (l.spell Gap.chars ++ tail)) =
      some (Quotation.value l.key,l.behindKey.chars ++ ':' :: (l.behindColon.chars ++ tail)) :=
        fun l tail => by
    rw [Label.skipSpace_spell,readString_text]
  match entries with
  | .last label value after =>
    simp only [Entries.spell,List.length_append,List.length_singleton] at hf
    have hvalue := readValue_spell value label.behindColon (after.chars ++ '}' :: rest)
      (ends_gap after (by simp) rest)
      fuel (by omega)
    simp only [Entries.spell,List.append_assoc,List.singleton_append]
    rw [readEntries_last (hkey label _) (skipSpace_gap_cons _ (by decide) _) hvalue
      (skipSpace_gap_cons after (by decide) rest),Entries.data]
  | .more label value after more =>
    simp only [Entries.spell,List.length_append,List.length_cons] at hf
    have hvalue := readValue_spell value label.behindColon
      (after.chars ++ ',' :: (more.spell Gap.chars ++ rest))
      (ends_gap after (by simp) _) fuel (by omega)
    simp only [Entries.spell,List.append_assoc,List.cons_append]
    rw [readEntries_more (hkey label _) (skipSpace_gap_cons _ (by decide) _) hvalue
      (skipSpace_gap_cons after (by decide) _) (readEntries_spell more rest fuel (by omega)),
        Entries.data]

end

/-- What is read as a value, or as the parts of one, is written as such. -/
def Sound (fuel : Nat) : Prop :=
  (∀ cs v left, readValue fuel cs = some (v,left) → ∃ (gap : Gap) (w : Written),
      cs = gap.chars ++ (w.spell Gap.chars ++ left) ∧ w.datum = v) ∧
    (∀ cs vs left, readItems fuel cs = some (vs,left) → ∃ items : Items,
      cs = items.spell Gap.chars ++ left ∧ items.data = vs) ∧
    ∀ cs vs left, readEntries fuel cs = some (vs,left) → ∃ entries : Entries,
      cs = entries.spell Gap.chars ++ left ∧ entries.data = vs

theorem exists_word {word : String} {w : Word} {v : Datum} (hw : word.toList = w.text)
    (h : expectWord word w.datum cs = some (v,left)) : cs = w.text ++ left ∧ w.datum = v := by
  have hlen : word.length = word.toList.length := word.length_toList.symm
  unfold expectWord at h
  split at h
  · rename_i hprefix
    obtain ⟨rest,rfl⟩ := List.isPrefixOf_iff_prefix.1 hprefix
    obtain ⟨rfl,rfl⟩ := Prod.mk.inj (Option.some.inj h)
    exact ⟨by rw [hlen,List.drop_left,hw],rfl⟩
  · cases h

theorem exists_written {v : Datum} (hsound : Sound fuel)
    (h : readValue (fuel + 1) cs = some (v,left)) :
    ∃ (gap : Gap) (w : Written), cs = gap.chars ++ (w.spell Gap.chars ++ left) ∧ w.datum = v := by
  obtain ⟨gap,hgap⟩ := exists_gap cs
  -- what stands behind the white space is spelled by a value
  suffices hw : ∃ w : Written, skipSpace cs = w.spell Gap.chars ++ left ∧ w.datum = v by
    obtain ⟨w,hspell,hdatum⟩ := hw
    exact ⟨gap,w,hspell ▸ hgap,hdatum⟩
  obtain ⟨-,hitems,hentries⟩ := hsound
  rw [readValue] at h
  split at h
  · rename_i rest hcs
    obtain ⟨gap',hgap'⟩ := exists_gap rest
    split at h
    · rename_i hclose
      obtain ⟨rfl,rfl⟩ := Prod.mk.inj (Option.some.inj h)
      exact ⟨.emptyTable gap',by rw [hcs,hgap',hclose]; simp [Written.spell],rfl⟩
    · obtain ⟨⟨found,left'⟩,hread,hv⟩ := Option.map_eq_some_iff.1 h
      obtain ⟨rfl,rfl⟩ := Prod.mk.inj hv
      rw [readEntries_skipSpace] at hread
      obtain ⟨entries,hspell,rfl⟩ := hentries _ _ _ hread
      exact ⟨.table entries,by rw [hcs,hspell,Written.spell,List.cons_append],by rw [Written.datum]⟩
  · rename_i rest hcs
    obtain ⟨gap',hgap'⟩ := exists_gap rest
    split at h
    · rename_i hclose
      obtain ⟨rfl,rfl⟩ := Prod.mk.inj (Option.some.inj h)
      exact ⟨.emptyList gap',by rw [hcs,hgap',hclose]; simp [Written.spell],rfl⟩
    · obtain ⟨⟨found,left'⟩,hread,hv⟩ := Option.map_eq_some_iff.1 h
      obtain ⟨rfl,rfl⟩ := Prod.mk.inj hv
      rw [readItems_skipSpace] at hread
      obtain ⟨items,hspell,rfl⟩ := hitems _ _ _ hread
      exact ⟨.list items,by rw [hcs,hspell,Written.spell,List.cons_append],by rw [Written.datum]⟩
  · rename_i rest hcs
    obtain ⟨⟨s,left'⟩,hread,hv⟩ := Option.map_eq_some_iff.1 h
    obtain ⟨rfl,rfl⟩ := Prod.mk.inj hv
    obtain ⟨q,hspell,rfl⟩ := exists_quotation hread
    exact ⟨.quoted q,by rw [hcs,hspell,Written.spell],by rw [Written.datum]⟩
  · rename_i rest hcs
    obtain ⟨hspell,hv⟩ := exists_word (w := .yes) (by decide) h
    exact ⟨.word .yes,by rw [hcs,hspell,Written.spell],by rw [Written.datum,hv]⟩
  · rename_i rest hcs
    obtain ⟨hspell,hv⟩ := exists_word (w := .no) (by decide) h
    exact ⟨.word .no,by rw [hcs,hspell,Written.spell],by rw [Written.datum,hv]⟩
  · rename_i rest hcs
    obtain ⟨hspell,hv⟩ := exists_word (w := .null) (by decide) h
    exact ⟨.word .null,by rw [hcs,hspell,Written.spell],by rw [Written.datum,hv]⟩
  · obtain ⟨n,hspell,hv⟩ := exists_numeral h
    exact ⟨.number n,by rw [hspell,Written.spell],by rw [Written.datum,hv]⟩

theorem exists_items {vs : List Datum} (hsound : Sound fuel)
    (h : readItems (fuel + 1) cs = some (vs,left)) :
    ∃ items : Items, cs = items.spell Gap.chars ++ left ∧ items.data = vs := by
  rw [readItems] at h
  split at h
  · cases h
  · rename_i item behind hitem
    obtain ⟨before,w,rfl,rfl⟩ := hsound.1 _ _ _ hitem
    obtain ⟨after,hafter⟩ := exists_gap behind
    split at h
    · rename_i hclose
      obtain ⟨rfl,rfl⟩ := Prod.mk.inj (Option.some.inj h)
      refine ⟨.last before w after,?_,by rw [Items.data]⟩
      rw [hafter,hclose]
      simp [Items.spell]
    · rename_i rest hcomma
      obtain ⟨⟨found,left'⟩,hread,hv⟩ := Option.map_eq_some_iff.1 h
      obtain ⟨rfl,rfl⟩ := Prod.mk.inj hv
      obtain ⟨items,rfl,rfl⟩ := hsound.2.1 _ _ _ hread
      refine ⟨.more before w after items,?_,by rw [Items.data]⟩
      rw [hafter,hcomma]
      simp [Items.spell]
    · cases h

theorem exists_entries {vs : List (Datum × Datum)} (hsound : Sound fuel)
    (h : readEntries (fuel + 1) cs = some (vs,left)) :
    ∃ entries : Entries, cs = entries.spell Gap.chars ++ left ∧ entries.data = vs := by
  obtain ⟨before,hbefore⟩ := exists_gap cs
  rw [readEntries] at h
  split at h
  · cases h
  · rename_i key behindKey hkey
    obtain ⟨q,hq,rfl⟩ := exists_quotation hkey
    obtain ⟨mid,hmid⟩ := exists_gap behindKey
    split at h
    · rename_i rest hcolon
      split at h
      · cases h
      · rename_i value behind hvalue
        obtain ⟨behindColon,w,rfl,rfl⟩ := hsound.1 _ _ _ hvalue
        obtain ⟨after,hafter⟩ := exists_gap behind
        split at h
        · rename_i hclose
          obtain ⟨rfl,rfl⟩ := Prod.mk.inj (Option.some.inj h)
          refine ⟨.last ⟨before,q,mid,behindColon⟩ w after,?_,by rw [Entries.data]⟩
          rw [hbefore,hq,hmid,hcolon,hafter,hclose]
          simp [Entries.spell,Label.spell]
        · rename_i rest' hcomma
          obtain ⟨⟨found,left'⟩,hread,hv⟩ := Option.map_eq_some_iff.1 h
          obtain ⟨rfl,rfl⟩ := Prod.mk.inj hv
          obtain ⟨entries,rfl,rfl⟩ := hsound.2.2 _ _ _ hread
          refine ⟨.more ⟨before,q,mid,behindColon⟩ w after entries,?_,by rw [Entries.data]⟩
          rw [hbefore,hq,hmid,hcolon,hafter,hcomma]
          simp [Entries.spell,Label.spell]
        · cases h
    · cases h

theorem sound (fuel : Nat) : Sound fuel := by
  induction fuel with
  | zero => exact ⟨fun _ _ _ h => by simp [readValue] at h,fun _ _ _ h => by simp [readItems] at h,
      fun _ _ _ h => by simp [readEntries] at h⟩
  | succ fuel ih =>
    exact ⟨fun _ _ _ => exists_written ih,fun _ _ _ => exists_items ih,
      fun _ _ _ => exists_entries ih⟩

/-- A text is read as a value exactly if it is a way to write that value. -/
theorem read?_eq_some_iff {s : String} {v : Datum} :
    read? s = some v ↔ ∃ w : Document, w.text = s.toList ∧ w.value.datum = v := by
  constructor
  · intro h
    unfold read? at h
    split at h
    · rename_i value left hread
      split at h
      · rename_i hleft
        obtain rfl := Option.some.inj h
        obtain ⟨before,w,htext,hw⟩ := (sound _).1 _ _ _ hread
        obtain ⟨after,hafter⟩ := exists_gap left
        rw [List.isEmpty_iff.1 hleft,List.append_nil] at hafter
        refine ⟨⟨before,w,after⟩,?_,hw⟩
        rw [htext,hafter,Document.text,Document.spell,List.append_assoc]
      · cases h
    · cases h
  · rintro ⟨w,htext,rfl⟩
    have hspell : s.toList = w.before.chars ++ (w.value.spell Gap.chars ++ w.after.chars) := by
      rw [← htext,Document.text,Document.spell,List.append_assoc]
    have hlen : s.length = s.toList.length := s.length_toList.symm
    have hends : Ends w.after.chars := by
      have hgap := ends_gap w.after (c := ',') (.inl rfl) []
      intro c hc
      refine hgap c ?_
      rw [List.head?_append,Option.mem_def.1 hc]
      rfl
    have hread := readValue_spell w.value w.before w.after.chars hends (2 * s.length + 2)
      (by rw [hlen,hspell]; simp only [List.length_append]; omega)
    have hblank : skipSpace w.after.chars = [] := by
      have hgap := skipSpace_gap w.after []
      rwa [List.append_nil] at hgap
    rw [read?,hspell,hread]
    simp [hblank]

end OperationHooks.Json
