import OperationHooks.Number.Literal
import OperationHooks.Proofs.Json.Reading
import OperationHooks.Proofs.Yaml.Quoted
import OperationHooks.Text.Blank
/-!
Documents that are written as a reader of YAML texts wants them: no tabulators between the pieces,
every key and its colon on one line and not too far apart, no characters that are lost or refused,
no integers that are too long.
-/
set_option autoImplicit false

namespace OperationHooks.Json

def Gap.isPlain (g : Gap) : Bool := g.chars.all (· != '\t')

def Gap.isInLine (g : Gap) : Bool := g.chars.all (· == ' ')

/-- How far the colon behind a key may be from where the key starts. -/
def maxKeyDistance : Nat := 1024

def Label.isPlain (l : Label) : Bool :=
  l.before.isPlain && Quotation.isPlain l.key && l.behindKey.isInLine && l.behindColon.isPlain &&
    decide ((Quotation.text l.key).length + l.behindKey.chars.length ≤ maxKeyDistance)

def Numeral.isPlain (n : Numeral) : Bool :=
  !n.isInteger || decide (n.whole.length ≤ Literal.maxDecimalDigits)

mutual

def Written.isPlain : Written → Bool
  | .word _ => true
  | .number n => n.isPlain
  | .quoted q => Quotation.isPlain q
  | .emptyList gap => gap.isPlain
  | .list items => items.isPlain
  | .emptyTable gap => gap.isPlain
  | .table entries => entries.isPlain

def Items.isPlain : Items → Bool
  | .last before item after => before.isPlain && item.isPlain && after.isPlain
  | .more before item after rest => before.isPlain && item.isPlain && after.isPlain && rest.isPlain

def Entries.isPlain : Entries → Bool
  | .last label value after => label.isPlain && value.isPlain && after.isPlain
  | .more label value after rest => label.isPlain && value.isPlain && after.isPlain && rest.isPlain

end

def Gap.lines (g : Gap) : List Char := Text.plainNewlines g.chars

section Newlines

variable {cs rest : List Char}

theorem plainNewlines_cons {c : Char} (h : c ≠ '\r') (rest : List Char) :
    Text.plainNewlines (c :: rest) = c :: Text.plainNewlines rest := by
  rw [Text.plainNewlines.eq_def]
  split
  · rename_i heq; cases heq
  · rename_i heq; exact absurd (List.cons.inj heq).1 h
  · rename_i heq; exact absurd (List.cons.inj heq).1 h
  · rename_i heq
    obtain ⟨rfl,rfl⟩ := List.cons.inj heq
    rfl

theorem plainNewlines_append_of_not_mem (h : '\r' ∉ cs) (rest : List Char) :
    Text.plainNewlines (cs ++ rest) = cs ++ Text.plainNewlines rest := by
  induction cs with
  | nil => rfl
  | cons c cs ih =>
    obtain ⟨hc,hcs⟩ := List.ne_and_not_mem_of_not_mem_cons h
    rw [List.cons_append,plainNewlines_cons (Ne.symm hc),ih hcs,List.cons_append]

theorem plainNewlines_lone (h : ∀ more, rest = '\n' :: more → False) :
    Text.plainNewlines ('\r' :: rest) = '\n' :: Text.plainNewlines rest := by
  rw [Text.plainNewlines.eq_def]
  split
  · rename_i heq; cases heq
  · rename_i heq; exact (h _ (List.cons.inj heq).2).elim
  · rename_i heq; rw [(List.cons.inj heq).2]
  · rename_i hne heq; exact (hne (List.cons.inj heq).1.symm).elim

/-- Two texts are normalised one by one unless the line feed at the front of the second one belongs
to the first. -/
theorem plainNewlines_append (h : rest.head? ≠ some '\n') (cs : List Char) :
    Text.plainNewlines (cs ++ rest) = Text.plainNewlines cs ++ Text.plainNewlines rest := by
  induction cs using Text.plainNewlines.induct with
  | case1 => rfl
  | case2 more ih => simp only [List.cons_append,Text.plainNewlines,ih]
  | case3 more hmore ih =>
    rw [List.cons_append,plainNewlines_lone,plainNewlines_lone hmore,ih,List.cons_append]
    rintro rest' heq
    cases more with
    | nil => exact h (by rw [List.nil_append] at heq; rw [heq]; rfl)
    | cons m more => exact hmore more (by rw [List.cons_append] at heq; rw [(List.cons.inj heq).1])
  | case4 c more hne1 hne2 ih =>
    have hc : c ≠ '\r' := by
      rintro rfl
      exact hne2 rfl
    rw [List.cons_append,plainNewlines_cons hc,plainNewlines_cons hc,ih,List.cons_append]

end Newlines

section Spelling

variable {c : Char}

/-- The characters of numbers. -/
def numeralChars : List Char := ['-','+','.','e','E','0','1','2','3','4','5','6','7','8','9']

theorem mem_numeralChars_of_isDigit (h : Decimal.isDigit c = true) : c ∈ numeralChars := by
  have hfirst := mem_firsts_of_isDigit h
  simp only [firsts,List.mem_cons,List.not_mem_nil,or_false] at hfirst
  rcases hfirst with rfl | rfl | rfl | rfl | rfl | rfl | rfl | rfl | rfl | rfl | rfl | rfl | rfl
    | rfl | rfl | rfl | rfl
  all_goals first | decide | cases h

theorem mem_numeralChars_of_all {digits : List Char} (h : digits.all Decimal.isDigit = true)
    (hc : c ∈ digits) :
    c ∈ numeralChars := mem_numeralChars_of_isDigit (List.all_eq_true.1 h c hc)

theorem Numeral.mem_text (n : Numeral) (hc : c ∈ n.text) : c ∈ numeralChars := by
  have hbody : ∀ c ∈ n.body, c ∈ numeralChars := by
    intro c hc
    rw [Numeral.body,List.mem_append,List.mem_append] at hc
    rcases hc with (hc | hc) | hc
    · exact mem_numeralChars_of_all n.all_whole hc
    · unfold Numeral.fractionText at hc
      split at hc
      · cases hc
      · rcases List.mem_cons.1 hc with rfl | hc
        · decide
        · exact mem_numeralChars_of_all n.all_fraction hc
    · cases he : n.exponent with
      | none => rw [he] at hc; cases hc
      | some e =>
        rw [he,Numeral.exponentText,Option.elim_some,Exponent.text] at hc
        rcases List.mem_cons.1 hc with rfl | hc
        · unfold Exponent.mark
          cases e.capital <;> decide
        · rcases List.mem_append.1 hc with hc | hc
          · cases hs : e.sign with
            | none => rw [hs] at hc; cases hc
            | some minus =>
              rw [hs] at hc
              cases minus <;> rw [List.mem_singleton.1 hc] <;> decide
          · exact mem_numeralChars_of_all e.all_digits hc
  unfold Numeral.text at hc
  split at hc
  · rcases List.mem_cons.1 hc with rfl | hc
    · decide
    · exact hbody c hc
  · exact hbody c hc

theorem Numeral.all_text (n : Numeral) {test : Char → Bool} (h : numeralChars.all test = true) :
    ∀ c ∈ n.text, test c = true := fun c hc => List.all_eq_true.1 h c (n.mem_text hc)

theorem Word.all_text (w : Word) {test : Char → Bool}
    (h : ['n','u','l','t','r','e','f','a','s'].all test = true) : ∀ c ∈ w.text, test c = true := by
  intro c hc
  refine List.all_eq_true.1 h c ?_
  have hsubset :
      ∀ w : Word,
      (w.text.all fun c => ['n','u','l','t','r','e','f','a','s'].contains c) = true := by
    intro w
    cases w <;> decide
  simpa using List.all_eq_true.1 (hsubset w) c hc

theorem isHex_of_natural? {digits : List Char} {code : Nat}
    (h : Decimal.natural? 16 digits = some code) :
    ∀ c ∈ digits, (Decimal.digitValue? 16 c).isSome = true := by
  have hfrom : ∀ (digits : List Char) (acc : Nat), Decimal.digitsFrom 16 acc digits = some code →
      ∀ c ∈ digits, (Decimal.digitValue? 16 c).isSome = true := by
    intro digits
    induction digits with
    | nil => intro _ _ c hc; cases hc
    | cons d digits ih =>
      intro acc h c hc
      rw [Decimal.digitsFrom] at h
      obtain ⟨value,hvalue,hrest⟩ := Option.bind_eq_some_iff.1 h
      rcases List.mem_cons.1 hc with rfl | hc
      · rw [hvalue]; rfl
      · exact ih _ hrest c hc
  unfold Decimal.natural? at h
  split at h
  · cases h
  · exact hfrom _ _ h

theorem ge_of_isHex (h : (Decimal.digitValue? 16 c).isSome = true) :
    48 ≤ c.toNat ∧ c.toNat ≤ 122 := by
  unfold Decimal.digitValue? at h
  obtain ⟨n,hn⟩ := Option.isSome_iff_exists.1 h
  have hsome := (Option.filter_eq_some_iff.1 hn).1
  simp only [Decimal.isDigit,Bool.and_eq_true,decide_eq_true_eq,Char.le_def,
    UInt32.le_iff_toNat_le] at hsome
  split at hsome
  · rename_i hd
    exact ⟨hd.1,Nat.le_trans hd.2 (by decide)⟩
  · split at hsome
    · rename_i hd
      exact ⟨Nat.le_trans (by decide) hd.1,hd.2⟩
    · split at hsome
      · rename_i hd
        exact ⟨Nat.le_trans (by decide) hd.1,Nat.le_trans hd.2 (by decide)⟩
      · cases hsome

/-- What a string is spelled with: visible marks, and the characters that stand for themselves. -/
theorem mem_text {q : Quotation} (hc : c ∈ Quotation.text q) :
    32 ≤ c.toNat ∧ c.toNat ≤ 122 ∨ ∃ h : isRaw c = true, Part.raw c h ∈ q := by
  have hinner : ∀ c ∈ Quotation.inner q, 32 ≤ c.toNat ∧ c.toNat ≤ 122 ∨ ∃ h : isRaw c = true,
      Part.raw c h ∈ q := by
    intro c hc
    obtain ⟨p,hp,hc⟩ := List.mem_flatMap.1 hc
    cases p with
    | raw x h =>
      obtain rfl := List.mem_singleton.1 hc
      exact .inr ⟨h,hp⟩
    | short mark value h =>
      left
      rcases List.mem_cons.1 hc with rfl | hc
      · decide
      · obtain rfl := List.mem_singleton.1 hc
        simp only [shortEscapes,List.mem_cons,Prod.mk.injEq,List.not_mem_nil,or_false] at h
        rcases h with h | h | h | h | h | h | h | h <;> rw [h.1] <;> decide
    | unicode digits code hlen h =>
      left
      rcases List.mem_cons.1 hc with rfl | hc
      · decide
      · rcases List.mem_cons.1 hc with rfl | hc
        · decide
        · have hhex := ge_of_isHex (isHex_of_natural? h c hc)
          omega
  rcases List.mem_cons.1 hc with rfl | hc
  · exact .inl (by decide)
  · rcases List.mem_append.1 hc with hc | hc
    · exact hinner c hc
    · obtain rfl := List.mem_singleton.1 hc
      exact .inl (by decide)

theorem le_of_mem_text {q : Quotation} (hc : c ∈ Quotation.text q) : 32 ≤ c.toNat := by
  rcases mem_text hc with h | ⟨h,-⟩
  · exact h.1
  · simp only [isRaw,Bool.and_eq_true,decide_eq_true_eq] at h
    exact h.2

theorem not_mem_return {cs : List Char} (h : ∀ c ∈ cs, 32 ≤ c.toNat) : '\r' ∉ cs := fun hc =>
  absurd (h _ hc) (by decide)

theorem le_toNat_of_all {cs : List Char} (h : ∀ c ∈ cs, decide (32 ≤ c.toNat) = true) :
    ∀ c ∈ cs, 32 ≤ c.toNat :=
  fun c hc => of_decide_eq_true (h c hc)

theorem plainNewlines_gap (g : Gap) (h : c ≠ '\n') (hr : c ≠ '\r') (rest : List Char) :
    Text.plainNewlines (g.chars ++ c :: rest) = g.lines ++ c :: Text.plainNewlines rest := by
  rw [plainNewlines_append (by simpa using h),plainNewlines_cons hr]
  rfl

theorem plainNewlines_quotation (q : Quotation) (rest : List Char) :
    Text.plainNewlines (Quotation.text q ++ rest) = Quotation.text q ++ Text.plainNewlines rest :=
  plainNewlines_append_of_not_mem (not_mem_return fun _ => le_of_mem_text) rest

theorem plainNewlines_label (l : Label) (rest : List Char)
    (h : Text.plainNewlines (l.behindColon.chars ++ rest) =
      l.behindColon.lines ++ Text.plainNewlines rest) :
    Text.plainNewlines (l.spell Gap.chars ++ rest) =
      l.spell Gap.lines ++ Text.plainNewlines rest := by
  have hkey :
      (Quotation.text l.key ++ (l.behindKey.chars ++ ':' :: (l.behindColon.chars ++ rest))).head? ≠
      some '\n' := by simp [Quotation.text]
  simp only [Label.spell,List.append_assoc,List.cons_append]
  rw [plainNewlines_append hkey,plainNewlines_quotation,
    plainNewlines_gap _ (by decide) (by decide),h]
  rfl

theorem plainNewlines_before (g : Gap) (w : Written) (rest : List Char) :
    Text.plainNewlines (g.chars ++ (w.spell Gap.chars ++ rest)) =
      g.lines ++ Text.plainNewlines (w.spell Gap.chars ++ rest) := by
  obtain ⟨c,more,hw,hc⟩ := w.exists_first Gap.chars
  refine plainNewlines_append ?_ _
  have hne : c ≠ '\n' := by
    rintro rfl
    revert hc
    decide
  simpa [hw] using hne

mutual

theorem plainNewlines_spell (w : Written) (rest : List Char) :
    Text.plainNewlines (w.spell Gap.chars ++ rest) =
      w.spell Gap.lines ++ Text.plainNewlines rest := by
  match w with
  | .word w =>
    simp only [Written.spell]
    exact plainNewlines_append_of_not_mem
      (not_mem_return (le_toNat_of_all (w.all_text (by decide)))) rest
  | .number n =>
    simp only [Written.spell]
    exact plainNewlines_append_of_not_mem
      (not_mem_return (le_toNat_of_all (n.all_text (by decide)))) rest
  | .quoted q =>
    simp only [Written.spell]
    exact plainNewlines_quotation q rest
  | .emptyList gap =>
    simp only [Written.spell,List.cons_append,List.append_assoc,List.nil_append]
    rw [plainNewlines_cons (by decide),plainNewlines_gap _ (by decide) (by decide)]
  | .emptyTable gap =>
    simp only [Written.spell,List.cons_append,List.append_assoc,List.nil_append]
    rw [plainNewlines_cons (by decide),plainNewlines_gap _ (by decide) (by decide)]
  | .list items =>
    simp only [Written.spell,List.cons_append]
    rw [plainNewlines_cons (by decide),plainNewlines_items items rest]
  | .table entries =>
    simp only [Written.spell,List.cons_append]
    rw [plainNewlines_cons (by decide),plainNewlines_entries entries rest]

theorem plainNewlines_items (items : Items) (rest : List Char) :
    Text.plainNewlines (items.spell Gap.chars ++ rest) =
      items.spell Gap.lines ++ Text.plainNewlines rest := by
  match items with
  | .last before item after =>
    simp only [Items.spell,List.append_assoc,List.singleton_append]
    rw [plainNewlines_before,plainNewlines_spell item,plainNewlines_gap _ (by decide) (by decide)]
  | .more before item after more =>
    simp only [Items.spell,List.append_assoc,List.cons_append]
    rw [plainNewlines_before,plainNewlines_spell item,plainNewlines_gap _ (by decide) (by decide),
      plainNewlines_items more]

theorem plainNewlines_entries (entries : Entries) (rest : List Char) :
    Text.plainNewlines (entries.spell Gap.chars ++ rest) =
      entries.spell Gap.lines ++ Text.plainNewlines rest := by
  match entries with
  | .last label value after =>
    simp only [Entries.spell,List.append_assoc,List.singleton_append]
    rw [plainNewlines_label _ _ (plainNewlines_before ..),plainNewlines_spell value,
      plainNewlines_gap _ (by decide) (by decide)]
  | .more label value after more =>
    simp only [Entries.spell,List.append_assoc,List.cons_append]
    rw [plainNewlines_label _ _ (plainNewlines_before ..),plainNewlines_spell value,
      plainNewlines_gap _ (by decide) (by decide),plainNewlines_entries more]

end

theorem plainNewlines_text (w : Document) : Text.plainNewlines w.text = w.spell Gap.lines := by
  rw [Document.text,Document.spell,Document.spell,List.append_assoc,plainNewlines_before,
    plainNewlines_spell,
    List.append_assoc]
  rfl

theorem mem_plainNewlines {cs : List Char} (h : c ∈ Text.plainNewlines cs) :
    c = '\n' ∨ c ∈ cs ∧ c ≠ '\r' := by
  induction cs using Text.plainNewlines.induct with
  | case1 => cases h
  | case2 more ih =>
    rw [Text.plainNewlines] at h
    rcases List.mem_cons.1 h with rfl | h
    · exact .inl rfl
    · exact (ih h).imp_right fun hc => ⟨by simp [hc.1],hc.2⟩
  | case3 more hmore ih =>
    rw [plainNewlines_lone hmore] at h
    rcases List.mem_cons.1 h with rfl | h
    · exact .inl rfl
    · exact (ih h).imp_right fun hc => ⟨by simp [hc.1],hc.2⟩
  | case4 x more hne1 hne2 ih =>
    have hx : x ≠ '\r' := by
      rintro rfl
      exact hne2 rfl
    rw [plainNewlines_cons hx] at h
    rcases List.mem_cons.1 h with rfl | h
    · exact .inr ⟨List.mem_cons_self,hx⟩
    · exact (ih h).imp_right fun hc => ⟨List.mem_cons_of_mem _ hc.1,hc.2⟩

theorem Gap.isGap_lines {g : Gap} (h : g.isPlain = true) : Yaml.IsGap g.lines := by
  intro c hc
  rcases mem_plainNewlines hc with rfl | ⟨hmem,hr⟩
  · exact .inr rfl
  · have hspace : isSpace c = true := List.all_eq_true.1 g.blank c hmem
    have htab : c ≠ '\t' := by simpa using List.all_eq_true.1 h c hmem
    simp only [isSpace,Bool.or_eq_true,beq_iff_eq] at hspace
    rcases hspace with ((rfl | rfl) | rfl) | rfl
    · exact .inl rfl
    · exact .inr rfl
    · exact absurd rfl hr
    · exact absurd rfl htab

theorem Gap.lines_of_isInLine {g : Gap} (h : g.isInLine = true) :
    g.lines = g.chars ∧ ∀ c ∈ g.lines, c = ' ' := by
  have hall : ∀ c ∈ g.chars, c = ' ' := fun c hc => by simpa using List.all_eq_true.1 h c hc
  have hreturn : '\r' ∉ g.chars := fun hr => absurd (hall _ hr) (by decide)
  have hsame := plainNewlines_append_of_not_mem hreturn []
  rw [List.append_nil] at hsame
  have hlines : g.lines = g.chars := by
    rw [Gap.lines,hsame,Text.plainNewlines,List.append_nil]
  exact ⟨hlines,by rwa [hlines]⟩

/-- What a label that is plain says of its gaps and its key. -/
theorem Label.isPlain_iff {l : Label} :
    l.isPlain = true ↔ l.before.isPlain = true ∧ Quotation.isPlain l.key = true ∧
    l.behindKey.isInLine = true ∧ l.behindColon.isPlain = true ∧
      (Quotation.text l.key).length + l.behindKey.chars.length ≤ maxKeyDistance := by
  simp [Label.isPlain,and_assoc]

end Spelling

end OperationHooks.Json
