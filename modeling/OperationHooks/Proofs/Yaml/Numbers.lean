import OperationHooks.Proofs.Json.Plain
import OperationHooks.Yaml.Value
/-!
Words and numbers of JSON documents as plain scalars. A number with an exponent is one here only if
it has a point and its exponent a sign; every other one is a text.
-/
set_option autoImplicit false

namespace OperationHooks.Json

def Numeral.isPointed (n : Numeral) : Bool := !n.fraction.isEmpty && n.exponent.all (·.sign.isSome)

def Numeral.isStrict (n : Numeral) : Bool := n.isInteger || n.isPointed

def Numeral.reading (n : Numeral) : Datum :=
  if n.isStrict then n.datum else .text (String.ofList n.text)

def Exponent.lowered (e : Exponent) : Exponent := { e with capital := false }

def Numeral.lowered (n : Numeral) : Numeral :=
  { n with exponent := n.exponent.map Exponent.lowered }

def Numeral.tail (n : Numeral) : List Char := fractionText n.fraction ++ exponentText n.exponent

namespace Numeral

variable (n : Numeral)

theorem body_eq : n.body = n.whole ++ n.tail := List.append_assoc ..

theorem isDigit_of_mem_whole {c : Char} (h : c ∈ n.whole) : Decimal.isDigit c = true :=
  List.all_eq_true.1 n.all_whole c h

theorem whole_cases : n.whole = ['0'] ∨ ∃ c more, n.whole = c :: more ∧ '1' ≤ c ∧ c ≤ '9' := by
  obtain ⟨c,more,hwhole⟩ := List.exists_cons_of_ne_nil n.some_whole
  by_cases hc : c = '0'
  · exact .inl (n.whole_zero (by rw [hwhole,hc]; rfl))
  · have hdigit := n.isDigit_of_mem_whole (c := c) (by rw [hwhole]; exact List.mem_cons_self)
    refine .inr ⟨c,more,hwhole,?_⟩
    have hall : (numeralChars.all fun c => !Decimal.isDigit c || c == '0' ||
        (decide ('1' ≤ c) && decide (c ≤ '9'))) = true := by decide
    have hone := List.all_eq_true.1 hall c (mem_numeralChars_of_isDigit hdigit)
    simpa [hdigit,hc] using hone

/-- Nothing, a point or the mark of an exponent is behind the whole part. -/
theorem tail_cases : n.tail = [] ∧ n.isInteger = true ∨
    ∃ c more, n.tail = c :: more ∧ (c = '.' ∨ c = 'e' ∨ c = 'E') ∧ n.isInteger = false := by
  unfold tail isInteger
  cases n.fraction with
  | cons d fraction => exact .inr ⟨'.',_,rfl,.inl rfl,rfl⟩
  | nil =>
    cases n.exponent with
    | none => exact .inl ⟨rfl,rfl⟩
    | some e =>
      exact .inr ⟨e.mark,_,rfl,.inr (by simpa using e.isMark),rfl⟩

theorem splitSign_text : Decimal.splitSign n.text = (n.negative,n.body) := by
  have hbody : Decimal.splitSign n.body = (false,n.body) := by
    rw [body_eq]
    exact splitSign_digits n.all_whole n.some_whole n.tail
  unfold text
  cases n.negative with
  | true => rfl
  | false => exact hbody

/-- A text whose first character is a digit or a minus. -/
def StartsNumber (cs : List Char) : Prop :=
  ∃ c more, cs = c :: more ∧ (c = '-' ∨ Decimal.isDigit c = true)

theorem startsNumber_body : StartsNumber n.body := by
  obtain ⟨c,more,hwhole⟩ := List.exists_cons_of_ne_nil n.some_whole
  rw [body_eq,hwhole]
  exact ⟨c,_,rfl,.inr (n.isDigit_of_mem_whole (by rw [hwhole]; exact List.mem_cons_self))⟩

theorem startsNumber_text : StartsNumber n.text := by
  unfold text
  cases n.negative with
  | true => exact ⟨'-',_,rfl,.inl rfl⟩
  | false => exact n.startsNumber_body

/-- Words with other first characters are no numbers. -/
theorem StartsNumber.not_mem {cs : List Char} {words : List String} (h : StartsNumber cs)
    (hwords : (words.all fun word => word.toList.head?.all fun c => c != '-' &&
      !Decimal.isDigit c) = true) :
    words.contains (String.ofList cs) = false := by
  rw [← Bool.not_eq_true,List.contains_iff_mem]
  intro hmem
  obtain ⟨c,more,rfl,hc⟩ := h
  have hword := List.all_eq_true.1 hwords _ hmem
  rw [String.toList_ofList,List.head?_cons,Option.all_some,Bool.and_eq_true,bne_iff_ne,
    Bool.not_eq_true'] at hword
  rcases hc with rfl | hc
  · exact hword.1 rfl
  · rw [hword.2] at hc
    cases hc

end Numeral

end OperationHooks.Json

namespace OperationHooks.Yaml

open Json Numeral

section Forms

variable (n : Numeral)

theorem dropWhile_digits {digits rest : List Char} (h : digits.all Decimal.isDigit = true)
    (hrest : ∀ c ∈ rest.head?, isDigitOrUnderscore c = false) :
    (digits ++ rest).dropWhile isDigitOrUnderscore = rest :=
  Text.dropWhile_run (fun c hc => by simp [isDigitOrUnderscore,List.all_eq_true.1 h c hc]) hrest

theorem tail_stops : ∀ c ∈ n.tail.head?, isDigitOrUnderscore c = false ∧ c ≠ ':' := by
  rcases n.tail_cases with ⟨h,-⟩ | ⟨c,more,h,hc,-⟩
  · simp [h]
  · rw [h]
    rintro d hd
    obtain rfl : c = d := Option.some.inj hd
    rcases hc with rfl | rfl | rfl <;> decide

theorem afterSexagesimal?_body : afterSexagesimal? n.body = none := by
  obtain ⟨c,more,hwhole⟩ := List.exists_cons_of_ne_nil n.some_whole
  have hmore : more.all Decimal.isDigit = true := by
    have h := n.all_whole
    rw [hwhole,List.all_cons,Bool.and_eq_true] at h
    exact h.2
  have hdigit : Decimal.isDigit c = true :=
    n.isDigit_of_mem_whole (by rw [hwhole]; exact List.mem_cons_self)
  have hleft : ∀ fuel, sexagesimalTail fuel n.tail = n.tail := by
    intro fuel
    have hcolon := fun c hc => (tail_stops n c hc).2
    generalize n.tail = tail at hcolon
    cases fuel with
    | zero => rfl
    | succ fuel =>
      rw [sexagesimalTail.eq_def]
      dsimp only
      split
      · exact absurd rfl (hcolon ':' rfl)
      · exact absurd rfl (hcolon ':' rfl)
      · rfl
  rw [body_eq,hwhole,List.cons_append,afterSexagesimal?,if_pos hdigit]
  dsimp only
  rw [dropWhile_digits hmore fun c hc => (tail_stops n c hc).1,hleft,if_neg (Nat.lt_irrefl _)]

theorem isExponentOrEnd_exponentText (e : Option Exponent) :
    isExponentOrEnd (exponentText e) = e.all (·.sign.isSome) := by
  cases e with
  | none => rfl
  | some e =>
    obtain ⟨d,digits,hdigits⟩ := List.exists_cons_of_ne_nil e.some_digits
    have hall := e.all_digits
    have hd : Decimal.isDigit d = true :=
      List.all_eq_true.1 hall d (by rw [hdigits]; exact List.mem_cons_self)
    have hmark : (e.mark == 'e' || e.mark == 'E') = true := by
      unfold Exponent.mark
      cases e.capital <;> rfl
    rw [exponentText,Option.elim_some,Exponent.text,Option.all_some]
    cases hs : e.sign with
    | none =>
      have hsign : (d == '+' || d == '-') = false := by
        refine Bool.or_eq_false_iff.2 ⟨beq_eq_false_iff_ne.2 ?_,beq_eq_false_iff_ne.2 ?_⟩ <;>
          rintro rfl <;> cases hd
      rw [hdigits]
      simp [signText,isExponentOrEnd,hsign]
    | some minus =>
      have hne : e.digits.isEmpty = false := by rw [hdigits]; rfl
      cases minus <;> simp [signText,isExponentOrEnd,hmark,hne,hall]

theorem isPointFloat_body : isPointFloat n.body = n.isPointed := by
  obtain ⟨c,more,hwhole⟩ := List.exists_cons_of_ne_nil n.some_whole
  have hmore : more.all Decimal.isDigit = true := by
    have h := n.all_whole
    rw [hwhole,List.all_cons,Bool.and_eq_true] at h
    exact h.2
  have hdigit : Decimal.isDigit c = true :=
    n.isDigit_of_mem_whole (by rw [hwhole]; exact List.mem_cons_self)
  rw [body_eq,hwhole,List.cons_append,isPointFloat,hdigit,Bool.true_and,
    dropWhile_digits hmore fun c hc => (tail_stops n c hc).1,Numeral.tail,isPointed]
  cases hf : n.fraction with
  | nil =>
    cases he : n.exponent with
    | none => rfl
    | some e =>
      rw [fractionText,exponentText,Option.elim_some,Exponent.text]
      have hmark : e.mark ≠ '.' := by
        unfold Exponent.mark
        cases e.capital <;> decide
      simp [hmark]
  | cons d fraction =>
    have hall := n.all_fraction
    have hstop : ∀ c ∈ (exponentText n.exponent).head?, isDigitOrUnderscore c = false := by
      intro c hc
      cases he : n.exponent with
      | none => rw [he] at hc; cases hc
      | some e =>
        rw [he] at hc
        obtain rfl : e.mark = c := Option.some.inj hc
        unfold Exponent.mark
        cases e.capital <;> decide
    rw [hf] at hall
    rw [fractionText,List.isEmpty_cons,if_neg Bool.false_ne_true,List.cons_append]
    change isExponentOrEnd
      ((d :: fraction ++ exponentText n.exponent).dropWhile isDigitOrUnderscore) = _
    rw [dropWhile_digits hall hstop,isExponentOrEnd_exponentText]
    rfl

theorem isFloat_text : isFloat n.text = n.isPointed := by
  have hbody : unsigned n.text = n.body := by rw [unsigned,splitSign_text]
  have hbare : isBarePointFloat n.text = false := by
    obtain ⟨c,more,htext,hc⟩ := n.startsNumber_text
    rw [htext]
    unfold isBarePointFloat
    split
    · rename_i heq
      obtain rfl := (List.cons.inj heq).1
      rcases hc with hc | hc <;> cases hc
    · rfl
  have hsexagesimal : isSexagesimalFloat n.body = false := by
    rw [isSexagesimalFloat,afterSexagesimal?_body]
  have hinfinity : isInfinity n.body = false := n.startsNumber_body.not_mem (by decide)
  have hnan : isNaN n.text = false := n.startsNumber_text.not_mem (by decide)
  rw [isFloat,hbody,isPointFloat_body,hbare,hsexagesimal,hinfinity,hnan]
  simp only [Bool.or_false]

/-- The forms of an integer other than the decimal one have a second character that is none of a
number. -/
theorem isInt_zero {c : Char} (hc : c = '.' ∨ c = 'e' ∨ c = 'E') (more : List Char) :
    isBinaryInt ('0' :: c :: more) =
    false ∧ isOctalInt ('0' :: c :: more) = false ∧ isDecimalInt ('0' :: c :: more) = false ∧
      isHexInt ('0' :: c :: more) = false := by
  rcases hc with rfl | rfl | rfl <;> exact ⟨rfl,by simp [isOctalInt],by simp [isDecimalInt],rfl⟩

theorem isInt_nonzero {c : Char} (hc : c ≠ '0') (more : List Char) :
    isBinaryInt (c :: more) = false ∧
    isOctalInt (c :: more) = false ∧ isHexInt (c :: more) = false := by
  simp [isBinaryInt,isOctalInt,isHexInt,hc]

theorem isInt_text : isInt n.text = n.isInteger := by
  have hbody : unsigned n.text = n.body := by rw [unsigned,splitSign_text]
  have hsexagesimal : isSexagesimalInt n.body = false := by
    rw [isSexagesimalInt,afterSexagesimal?_body]
    exact Bool.and_false _
  rw [isInt,hbody,hsexagesimal,Bool.or_false]
  rcases n.whole_cases with hwhole | ⟨c,more,hwhole,hlow,hhigh⟩
  · rcases n.tail_cases with ⟨htail,hinteger⟩ | ⟨c,more,htail,hc,hinteger⟩
    · rw [body_eq,hwhole,htail,hinteger]
      rfl
    · obtain ⟨hbinary,hoctal,hdecimal,hhex⟩ := isInt_zero hc more
      rw [body_eq,hwhole,htail,hinteger,List.singleton_append,hbinary,hoctal,hdecimal,hhex]
      rfl
  · have hzero : c ≠ '0' := by
      rintro rfl
      exact absurd hlow (by decide)
    obtain ⟨hbinary,hoctal,hhex⟩ := isInt_nonzero hzero (more ++ n.tail)
    have hmore : more.all isDigitOrUnderscore = true := by
      refine List.all_eq_true.2 fun d hd => ?_
      simp [isDigitOrUnderscore,
        n.isDigit_of_mem_whole (c := d) (by rw [hwhole]; exact List.mem_cons_of_mem _ hd)]
    have hdecimal : isDecimalInt (c :: (more ++ n.tail)) = n.isInteger := by
      unfold isDecimalInt
      split
      · rename_i heq
        exact absurd (List.cons.inj heq).1 hzero
      · rename_i heq
        obtain ⟨rfl,rfl⟩ := List.cons.inj heq
        rw [List.all_append,hmore,Bool.true_and]
        rcases n.tail_cases with ⟨htail,hinteger⟩ | ⟨d,others,htail,hd,hinteger⟩
        · simp [htail,hinteger,hlow,hhigh]
        · have hstop : isDigitOrUnderscore d = false := by rcases hd with rfl | rfl | rfl <;> decide
          simp [htail,hinteger,hstop]
      · rename_i heq
        cases heq
    rw [body_eq,hwhole,List.cons_append,hbinary,hoctal,hdecimal,hhex]
    simp only [Bool.false_or,Bool.or_false]

theorem expectChar_tail {digits tail : List Char} (h : digits.all Decimal.isDigit = true)
    (htail : ∀ c ∈ tail.head?, c ≠ '-') : expectChar '-' (digits ++ tail) = none := by
  cases digits with
  | nil =>
    cases tail with
    | nil => rfl
    | cons c tail => exact if_neg (htail c rfl)
  | cons d digits =>
    refine if_neg ?_
    rintro rfl
    have hd := List.all_eq_true.1 h _ List.mem_cons_self
    cases hd

theorem moment?_text : moment? n.text = none := by
  have hstop : ∀ c ∈ n.tail.head?, c ≠ '-' ∧ Decimal.isDigit c = false := by
    rcases n.tail_cases with ⟨h,-⟩ | ⟨c,more,h,hc,-⟩
    · simp [h]
    · rw [h]
      intro d hd
      obtain rfl : c = d := Option.some.inj hd
      rcases hc with rfl | rfl | rfl <;> decide
  have hyear : ∀ year cs, takeDigits 4 4 n.text = some (year,cs) → expectChar '-' cs = none := by
    intro year cs h
    rw [takeDigits] at h
    split at h
    · cases h
    · rename_i hlen
      obtain ⟨-,rfl⟩ := Prod.mk.inj (Option.some.inj h)
      rw [← List.take_takeWhile] at hlen ⊢
      rw [text] at hlen ⊢
      cases hn : n.negative with
      | true => rw [hn] at hlen; exact absurd (Nat.succ_pos 3) hlen
      | false =>
        rw [hn,if_neg Bool.false_ne_true,body_eq,
          Text.takeWhile_run (fun c => n.isDigit_of_mem_whole)
          fun c hc => (hstop c hc).2] at hlen
        rw [if_neg Bool.false_ne_true,body_eq,Text.takeWhile_run (fun c => n.isDigit_of_mem_whole)
          fun c hc => (hstop c hc).2,List.drop_append_of_le_length (List.length_take_le' 4 _)]
        exact expectChar_tail (List.all_eq_true.2
          fun c hc => n.isDigit_of_mem_whole (List.mem_of_mem_drop hc))
          fun c hc => (hstop c hc).1
  unfold moment?
  cases h : takeDigits 4 4 n.text with
  | none => rfl
  | some found =>
    obtain ⟨year,cs⟩ := found
    simp only [Option.bind_eq_bind,Option.bind_some,hyear year cs h,Option.bind_none]

theorem formOf_text : formOf n.text = n.text := by
  unfold formOf
  split
  · rename_i h
    exact absurd (n.mem_text (List.mem_of_getLast? h)) (by decide)
  · rfl

/-- What the form of a number says it is. -/
theorem resolve_text : resolve (String.ofList n.text) =
    if n.isPointed then .float else if n.isInteger then .int else .str := by
  have hwords : ∀ words : List String,
      (words.all fun word => word.toList.head?.all fun c => c != '-' && !Decimal.isDigit c) = true →
        words.contains (String.ofList n.text) = false := fun _ => n.startsNumber_text.not_mem
  have hword :
      ∀ word : String, (word.toList.head?.all fun c => c != '-' && !Decimal.isDigit c) = true →
      (String.ofList n.text == word) = false := by
    intro word hhead
    have := hwords [word] (by simpa using hhead)
    simpa using this
  have hmoment : isMoment n.text = false := by rw [isMoment,moment?_text]
  simp only [resolve,String.toList_ofList,formOf_text,isFloat_text,isInt_text,hmoment,
    hwords trueWords (by decide),
    hwords falseWords (by decide),hwords nullWords (by decide),hword "<<" (by decide),
      hword "=" (by decide),
    hword "!" (by decide),hword "&" (by decide),hword "*" (by decide)]
  simp

end Forms

section Values

variable {digits rest : List Char} {n : Numeral}

theorem natural?_digits (h : digits.all Decimal.isDigit = true) (hne : digits ≠ []) :
    Decimal.natural? 10 digits = some (Decimal.naturalD digits) := by
  have hfrom : ∀ (digits : List Char) (acc : Nat), digits.all Decimal.isDigit = true →
      (Decimal.digitsFrom 10 acc digits).isSome = true := by
    intro digits
    induction digits with
    | nil => exact fun _ _ => rfl
    | cons c digits ih =>
      intro acc h
      rw [List.all_cons,Bool.and_eq_true] at h
      have hvalue : ∃ value, Decimal.digitValue? 10 c = some value := by
        have hall :
            (numeralChars.all fun c => !Decimal.isDigit c || (Decimal.digitValue? 10 c).isSome) =
            true := by
          decide
        have := List.all_eq_true.1 hall c (mem_numeralChars_of_isDigit h.1)
        exact Option.isSome_iff_exists.1 (by simpa [h.1] using this)
      obtain ⟨value,hvalue⟩ := hvalue
      rw [Decimal.digitsFrom,hvalue]
      exact ih _ h.2
  obtain ⟨d,more,rfl⟩ := List.exists_cons_of_ne_nil hne
  have hsome : (Decimal.natural? 10 (d :: more)).isSome = true := hfrom (d :: more) 0 h
  rw [Decimal.naturalD]
  obtain ⟨value,hvalue⟩ := Option.isSome_iff_exists.1 hsome
  rw [hvalue]
  rfl

theorem map_numeralChars {f : Char → Char} {cs : List Char} (hcs : ∀ c ∈ cs, c ∈ numeralChars)
    (h : (numeralChars.all fun c => f c == c) = true) : cs.map f = cs := by
  have hsame : ∀ c ∈ cs, f c = c := fun c hc => by simpa using List.all_eq_true.1 h c (hcs c hc)
  rw [List.map_congr_left hsame,List.map_id']

theorem mem_body {c : Char} (h : c ∈ n.body) : c ∈ numeralChars := by
  refine n.mem_text ?_
  unfold text
  split
  · exact List.mem_cons_of_mem _ h
  · exact h

theorem trimStart_eq {cs : List Char} (h : ∀ c ∈ cs, c ∈ numeralChars) :
    Literal.trimStart cs = cs := by
  cases cs with
  | nil => rfl
  | cons c cs =>
    have hall : (numeralChars.all fun c => !Literal.isSpace c) = true := by decide
    have := List.all_eq_true.1 hall c (h c List.mem_cons_self)
    rw [Literal.trimStart,List.dropWhile_cons_of_neg (by simpa using this)]

theorem literal_integer (h : digits.all Decimal.isDigit = true) (hne : digits ≠ [])
    (hlen : digits.length ≤ Literal.maxDecimalDigits) :
    Literal.integer 10 digits = .ok (Decimal.naturalD digits) := by
  have hmem : ∀ c ∈ digits, c ∈ numeralChars := fun c => mem_numeralChars_of_all h
  have hsign : Decimal.splitSign digits = (false,digits) := by simpa using splitSign_digits h hne []
  have hbase : Literal.withoutBaseMark 10 digits = digits := by
    unfold Literal.withoutBaseMark
    split
    · rfl
    · rfl
  have hvalue : ∀ c ∈ digits, (Decimal.digitValue? 10 c).isSome = true := by
    intro c hc
    have hall :
        (numeralChars.all fun c => !Decimal.isDigit c || (Decimal.digitValue? 10 c).isSome) =
        true := by decide
    simpa [List.all_eq_true.1 h c hc] using List.all_eq_true.1 hall c (hmem c hc)
  have htake : ((digits ++ []).takeWhile fun c => (Decimal.digitValue? 10 c).isSome) = digits :=
    Text.takeWhile_run hvalue fun _ hd => nomatch hd
  rw [List.append_nil] at htake
  have hlong :
      (decide (10 = 10) && decide (digits.length > Literal.maxDecimalDigits)) =
      false := by simp [hlen]
  have hnone : (Literal.trimStart (digits.drop digits.length)).isEmpty = true := by
    rw [List.drop_length]
    rfl
  unfold Literal.integer
  rw [map_numeralChars hmem (by decide),trimStart_eq hmem,hsign]
  dsimp only
  rw [hbase,htake,hlong,hnone,natural?_digits h hne]
  rfl

theorem withoutUnderscores_text (n : Numeral) : withoutUnderscores n.text = n.text := by
  refine List.filter_eq_self.2 fun c hc => ?_
  have hall : (numeralChars.all fun c => c != '_') = true := by decide
  exact List.all_eq_true.1 hall c (n.mem_text hc)

/-- The digits of a number without needless zeros are read as decimal ones. -/
theorem magnitude_whole (n : Numeral) (hlen : n.whole.length ≤ Literal.maxDecimalDigits) :
    magnitude n.whole = .ok (Decimal.naturalD n.whole) := by
  rcases n.whole_cases with hwhole | ⟨c,more,hwhole,hlow,-⟩
  · rw [hwhole]
    rfl
  · have hzero : c ≠ '0' := by
      rintro rfl
      exact absurd hlow (by decide)
    have hcolon : n.whole.contains ':' = false := by
      rw [← Bool.not_eq_true,List.contains_iff_mem]
      intro hmem
      have := n.isDigit_of_mem_whole hmem
      cases this
    have hread : integerIn 10 n.whole = .ok (Decimal.naturalD n.whole) := by
      rw [integerIn,literal_integer n.all_whole n.some_whole hlen]
      rfl
    have hother : ∀ rest, n.whole ≠ '0' :: rest :=
      fun rest heq => hzero (List.cons.inj (hwhole.symm.trans heq)).1
    rw [← hread]
    unfold magnitude
    split
    · rename_i heq; exact absurd heq n.some_whole
    · rename_i heq; exact absurd heq (hother _)
    · rename_i heq; exact absurd heq (hother _)
    · rename_i heq; exact absurd heq (hother _)
    · rename_i heq; exact absurd heq (hother _)
    · rw [hcolon]
      rfl

theorem integer_text (h : n.isInteger = true) (hlen : n.whole.length ≤ Literal.maxDecimalDigits) :
    integer (String.ofList n.text) =
      .ok (Decimal.signed n.negative (Decimal.naturalD n.whole)) := by
  have hbody : n.body = n.whole := by
    rcases n.tail_cases with ⟨htail,-⟩ | ⟨c,more,-,-,hinteger⟩
    · rw [body_eq,htail,List.append_nil]
    · rw [h] at hinteger
      cases hinteger
  rw [integer,String.toList_ofList,withoutUnderscores_text,splitSign_text,hbody]
  dsimp only
  rw [magnitude_whole n hlen]
  rfl

theorem lower_digits (h : digits.all Decimal.isDigit = true) :
    digits.map Char.toLower = digits := by
  have hsame : ∀ c ∈ digits, c.toLower = c := by
    intro c hc
    have hall : (numeralChars.all fun c => !Decimal.isDigit c || c.toLower == c) = true := by decide
    simpa [List.all_eq_true.1 h c hc] using List.all_eq_true.1 hall c (mem_numeralChars_of_all h hc)
  rw [List.map_congr_left hsame,List.map_id']

theorem lower_text (n : Numeral) : n.text.map Char.toLower = n.lowered.text := by
  have hfraction : (fractionText n.fraction).map Char.toLower = fractionText n.fraction := by
    unfold fractionText
    split
    · rfl
    · rw [List.map_cons,lower_digits n.all_fraction]
      rfl
  have hexponent :
      (exponentText n.exponent).map Char.toLower =
      exponentText (n.exponent.map Exponent.lowered) := by
    cases n.exponent with
    | none => rfl
    | some e =>
      have hmark : e.mark.toLower = 'e' := by
        unfold Exponent.mark
        cases e.capital <;> rfl
      have hsign : (signText e.sign).map Char.toLower = signText e.sign := by
        cases e.sign with
        | none => rfl
        | some minus => cases minus <;> rfl
      rw [Option.map_some,exponentText,exponentText,Option.elim_some,Option.elim_some,
        Exponent.text,Exponent.text,
        List.map_cons,hmark,List.map_append,hsign,lower_digits e.all_digits]
      rfl
  have hbody : n.body.map Char.toLower = n.lowered.body := by
    rw [body,body,List.map_append,List.map_append,lower_digits n.all_whole,hfraction,hexponent]
    rfl
  rw [text,text,← hbody]
  cases hn : n.negative with
  | true => exact (if_pos hn).symm
  | false => exact (if_neg fun h => Bool.false_ne_true (hn.symm.trans h)).symm

theorem lowerFrom_eq {cs : List Char} (h : ∀ c ∈ cs, c.toNat < 128) :
    ∀ before, Text.lowerFrom before cs = cs.map Char.toLower := by
  induction cs with
  | nil => exact fun _ => rfl
  | cons c cs ih =>
    intro before
    have hc : c.toNat < 128 := h c List.mem_cons_self
    have hsigma : c ≠ 'Σ' := by
      rintro rfl
      exact absurd hc (by decide)
    rw [Text.lowerFrom,if_neg hsigma,Text.lowerChar,if_pos hc,ih
      fun d hd => h d (List.mem_cons_of_mem _ hd)]
    rfl

theorem decimal?_body (h : n.isPointed = true) :
    Literal.decimal? n.body = some (n.mantissa,n.scale) := by
  obtain ⟨d,fraction,hfraction⟩ : ∃ d fraction, n.fraction = d :: fraction := by
    cases hf : n.fraction with
    | nil => rw [isPointed,hf] at h; cases h
    | cons d fraction => exact ⟨d,fraction,rfl⟩
  have htail : n.tail = '.' :: (n.fraction ++ exponentText n.exponent) := by
    rw [Numeral.tail,fractionText,hfraction]
    rfl
  have hwhole : n.body.takeWhile Decimal.isDigit = n.whole := by
    rw [body_eq,Text.takeWhile_run fun c => n.isDigit_of_mem_whole]
    rw [htail]
    rintro c hc
    obtain rfl : '.' = c := Option.some.inj hc
    rfl
  have hdigits :
      (n.fraction ++ exponentText n.exponent).takeWhile Decimal.isDigit = n.fraction := by
    refine Text.takeWhile_run (fun c hc => List.all_eq_true.1 n.all_fraction c hc) fun c hc => ?_
    have hends : Ends [] := fun _ hd => absurd hd (Option.not_mem_none _)
    exact (head?_exponentText hends c (by rwa [List.append_nil])).1
  have hnone : (n.whole ++ n.fraction).isEmpty = false := by
    rw [hfraction]
    simp
  have hafter : n.body.drop n.whole.length = '.' :: (n.fraction ++ exponentText n.exponent) := by
    rw [body_eq,List.drop_left,htail]
  simp only [Literal.decimal?,hwhole,hafter,hdigits,List.drop_left,hnone,
    Bool.false_eq_true,if_false]
  rw [mantissa,scale]
  cases n.exponent with
  | none => rfl
  | some e =>
    have hmark : e.mark.toLower = 'e' := by
      unfold Exponent.mark
      cases e.capital <;> rfl
    have hsign := splitSign_exponent e []
    rw [List.append_nil,List.append_nil] at hsign
    simp only [exponentText,Option.elim_some,Exponent.text,hmark,if_true,hsign,
      natural?_digits e.all_digits e.some_digits,Option.map_some,Option.getD_some]
    rfl

theorem neg_ofDecimal (digits : Nat) (exponent : Int) :
    (Binary64.ofDecimal false digits exponent).neg = .ofDecimal true digits exponent := by
  have hratio : ∀ m d, (Binary64.ofRatio false m d).neg = .ofRatio true m d := by
    intro m d
    unfold Binary64.ofRatio
    split
    · rfl
    · exact apply_ite Binary64.neg _ _ _
  unfold Binary64.ofDecimal
  split
  · rfl
  · split
    · rfl
    · split
      · rfl
      · split
        · exact hratio ..
        · exact hratio ..

theorem splitSign_body (n : Numeral) : Decimal.splitSign n.body = (false,n.body) := by
  rw [body_eq]
  exact splitSign_digits n.all_whole n.some_whole n.tail

theorem trim_eq {cs : List Char} (h : ∀ c ∈ cs, c ∈ numeralChars) : Literal.trim cs = cs := by
  have hreverse : ∀ c ∈ cs.reverse, c ∈ numeralChars := fun c hc => h c (List.mem_reverse.1 hc)
  rw [Literal.trim,trimStart_eq h,trimStart_eq hreverse,List.reverse_reverse]

theorem realOf_body (h : n.isPointed = true) :
    realOf n.body = .ok (.ofDecimal false n.mantissa n.scale) := by
  have hmem : ∀ c ∈ n.body, c ∈ numeralChars := fun c => mem_body
  have hwords :
      ["inf","infinity","nan"].contains (String.ofList (n.body.map Char.toLower)) = false := by
    refine StartsNumber.not_mem ?_ (by decide)
    obtain ⟨c,more,hbody,hc⟩ := n.startsNumber_body
    refine ⟨c.toLower,more.map Char.toLower,by rw [hbody]; rfl,?_⟩
    rcases hc with rfl | hc
    · exact .inl rfl
    · have hall :
          (numeralChars.all fun c => !Decimal.isDigit c || Decimal.isDigit c.toLower) =
          true := by decide
      exact .inr (by simpa [hc] using List.all_eq_true.1 hall c (mem_numeralChars_of_isDigit hc))
  simp only [List.contains_cons,List.contains_nil,Bool.or_false,Bool.or_eq_false_iff] at hwords
  have hreal : Literal.real? n.body = some (.ofDecimal false n.mantissa n.scale) := by
    unfold Literal.real?
    rw [map_numeralChars hmem (by decide),trim_eq hmem,splitSign_body]
    dsimp only
    rw [hwords.1,hwords.2.1,hwords.2.2,decimal?_body h]
    rfl
  rw [realOf,hreal]

theorem real_text (h : n.isPointed = true) :
    real (String.ofList n.text) = .ok (.ofDecimal n.negative n.mantissa n.scale) := by
  have hascii : ∀ c ∈ n.text, c.toNat < 128 := by
    intro c hc
    have hall : (numeralChars.all fun c => decide (c.toNat < 128)) = true := by decide
    exact of_decide_eq_true (List.all_eq_true.1 hall c (n.mem_text hc))
  have hlower :
      (Text.lower (String.ofList (withoutUnderscores (String.ofList n.text).toList))).toList =
      n.lowered.text := by
    rw [String.toList_ofList,withoutUnderscores_text,Text.lower,String.toList_ofList,
      String.toList_ofList,
      lowerFrom_eq hascii,lower_text]
  have hpointed : n.lowered.isPointed = true := by
    rw [← h,isPointed,isPointed,lowered]
    cases n.exponent <;> rfl
  have hscale : n.lowered.scale = n.scale := by
    rw [scale,scale,lowered]
    cases n.exponent <;> rfl
  have hread := realOf_body hpointed
  rw [hscale] at hread
  have hempty : n.lowered.text.isEmpty = false := by
    obtain ⟨c,more,htext,-⟩ := n.lowered.startsNumber_text
    rw [htext]
    rfl
  have hword :
      ∀ word : String, (word.toList.head?.all fun c => c != '-' && !Decimal.isDigit c) = true →
      (n.lowered.body == word.toList) = false := by
    intro word hhead
    have hnot : [word].contains (String.ofList n.lowered.body) = false :=
      n.lowered.startsNumber_body.not_mem (by simpa using hhead)
    refine beq_eq_false_iff_ne.2 fun heq => ?_
    rw [heq,String.ofList_toList] at hnot
    simp at hnot
  have hcolon : n.lowered.body.contains ':' = false := by
    rw [← Bool.not_eq_true,List.contains_iff_mem]
    exact fun hmem => absurd (mem_body hmem) (by decide)
  unfold real
  rw [hlower]
  simp only [hempty,Bool.false_eq_true,if_false,splitSign_text,hword ".inf" (by decide),
    hword ".nan" (by decide),hcolon,
    hread]
  change Except.ok (if n.negative = true then (Binary64.ofDecimal false n.mantissa n.scale).neg
    else Binary64.ofDecimal false n.mantissa n.scale) = _
  rw [neg_ofDecimal]
  cases n.negative
  · rw [if_neg Bool.false_ne_true]
  · rw [if_pos rfl]

theorem scalarDatum_text (h : n.isPlain = true) :
    scalarDatum (resolve (String.ofList n.text)) (String.ofList n.text) = .ok n.reading := by
  rw [resolve_text,reading,isStrict]
  cases hp : n.isPointed with
  | true =>
    have hinteger : n.isInteger = false := by
      unfold isPointed at hp
      unfold isInteger
      cases hf : n.fraction with
      | nil => rw [hf] at hp; cases hp
      | cons d fraction => rfl
    rw [Bool.or_true,if_pos rfl,if_pos rfl,datum,hinteger,if_neg Bool.false_ne_true,
      scalarDatum,real_text hp]
    generalize Binary64.ofDecimal n.negative n.mantissa n.scale = x
    rfl
  | false =>
    rw [if_neg Bool.false_ne_true,Bool.or_false]
    cases hi : n.isInteger with
    | true =>
      have hlen : n.whole.length ≤ Literal.maxDecimalDigits := by simpa [Numeral.isPlain,hi] using h
      rw [if_pos rfl,if_pos rfl,datum,hi,if_pos rfl,scalarDatum,integer_text hi hlen]
      rfl
    | false => rfl

theorem scalarDatum_word (w : Word) :
    scalarDatum (resolve (String.ofList w.text)) (String.ofList w.text) = .ok w.datum := by
  cases w with
  | null =>
    have htag : resolve (String.ofList Word.null.text) = .null := by decide
    rw [htag]
    rfl
  | yes =>
    have htag : resolve (String.ofList Word.yes.text) = .bool := by decide
    have hread : boolean (String.ofList Word.yes.text) = .ok true := by rfl
    rw [htag,scalarDatum,hread]
    rfl
  | no =>
    have htag : resolve (String.ofList Word.no.text) = .bool := by decide
    have hread : boolean (String.ofList Word.no.text) = .ok false := by rfl
    rw [htag,scalarDatum,hread]
    rfl

end Values

end OperationHooks.Yaml
