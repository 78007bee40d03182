import OperationHooks.Proofs.Json.Written
import OperationHooks.Proofs.Text.Blank

set_option autoImplicit false

namespace OperationHooks.Json

variable {digits rest cs left : List Char}

/-- A text that does not go on as a number. -/
def Ends (rest : List Char) : Prop :=
  ∀ c ∈ rest.head?, Decimal.isDigit c = false ∧ c ≠ '.' ∧ c ≠ 'e' ∧ c ≠ 'E'

theorem takeDigits_append (h : digits.all Decimal.isDigit = true)
    (hr : ∀ c ∈ rest.head?, Decimal.isDigit c = false) :
      takeDigits (digits ++ rest) = (digits,rest) := by
  have hall : ∀ c ∈ digits, Decimal.isDigit c = true := fun c hc => List.all_eq_true.1 h c hc
  rw [takeDigits,Text.takeWhile_run hall hr,Text.dropWhile_run hall hr]

theorem takeDigits_eq (h : takeDigits cs = (digits,rest)) :
    digits.all Decimal.isDigit = true ∧ cs = digits ++ rest := by
  obtain ⟨rfl,rfl⟩ := Prod.mk.inj h
  exact ⟨by simp,List.takeWhile_append_dropWhile.symm⟩

theorem readFraction_append {fraction : List Char} (h : fraction.all Decimal.isDigit = true)
    (hr : ∀ c ∈ rest.head?, Decimal.isDigit c = false ∧ c ≠ '.') :
    readFraction (Numeral.fractionText fraction ++ rest) = (fraction,rest) := by
  cases fraction with
  | nil =>
    cases rest with
    | nil => rfl
    | cons c rest =>
      have hc : c ≠ '.' := (hr c rfl).2
      rw [Numeral.fractionText,List.isEmpty_nil,if_pos rfl,List.nil_append]
      unfold readFraction
      split
      · rename_i heq
        exact absurd (List.cons.inj heq).1 hc
      · rfl
  | cons c fraction =>
    rw [Numeral.fractionText,List.isEmpty_cons,if_neg Bool.false_ne_true,
      List.cons_append,readFraction,
      takeDigits_append h fun c hc => (hr c hc).1]

theorem splitSign_cons {c : Char} (hm : c ≠ '-') (hp : c ≠ '+') (cs : List Char) :
    Decimal.splitSign (c :: cs) = (false,c :: cs) := by
  unfold Decimal.splitSign
  split
  · rename_i heq
    exact absurd (List.cons.inj heq).1 hm
  · rename_i heq
    exact absurd (List.cons.inj heq).1 hp
  · rfl

theorem splitSign_digits (h : digits.all Decimal.isDigit = true) (hne : digits ≠ [])
    (rest : List Char) :
    Decimal.splitSign (digits ++ rest) = (false,digits ++ rest) := by
  obtain ⟨first,more,rfl⟩ := List.exists_cons_of_ne_nil hne
  have hd : Decimal.isDigit first = true := List.all_eq_true.1 h first List.mem_cons_self
  exact splitSign_cons (fun he => by rw [he] at hd; cases hd)
    (fun he => by rw [he] at hd; cases hd) _

theorem Exponent.isMark (e : Exponent) :
    (decide (e.mark = 'e') || decide (e.mark = 'E')) = true := by
  unfold Exponent.mark
  cases e.capital <;> rfl

theorem splitSign_exponent (e : Exponent) (rest : List Char) :
    Decimal.splitSign (signText e.sign ++ e.digits ++ rest) =
      (e.sign == some true,e.digits ++ rest) := by
  cases hs : e.sign with
  | none => exact splitSign_digits e.all_digits e.some_digits rest
  | some minus => cases minus <;> rfl

theorem readExponent_append {e : Option Exponent} (hr : Ends rest) :
    readExponent (Numeral.exponentText e ++ rest) = (e.map Exponent.value,rest) := by
  cases e with
  | none =>
    cases rest with
    | nil => rfl
    | cons c rest =>
      obtain ⟨-,-,he,hE⟩ := hr c rfl
      simp [Numeral.exponentText,readExponent,he,hE]
  | some e =>
    have hdigits : takeDigits (e.digits ++ rest) = (e.digits,rest) :=
      takeDigits_append e.all_digits fun c hc => (hr c hc).1
    rw [Numeral.exponentText,Option.elim_some,Exponent.text,List.cons_append,
      readExponent,if_pos e.isMark,
      splitSign_exponent]
    simp only [hdigits]
    split
    · rename_i h
      exact absurd (Prod.mk.inj h).1 e.some_digits
    · rename_i h
      obtain ⟨rfl,rfl⟩ := Prod.mk.inj h
      rfl

def minus (cs : List Char) : Bool × List Char :=
  match cs with
  | '-' :: rest => (true,rest)
  | _ => (false,cs)

def whole? (unsigned : List Char) : Option (List Char × List Char) :=
  match unsigned with
  | '0' :: rest => some (['0'],rest)
  | _ =>
    match takeDigits unsigned with
    | ([],_) => none
    | found => some found

def numberFrom (negative : Bool) (whole afterWhole : List Char) : Datum × List Char :=
  let (fraction,afterFraction) := readFraction afterWhole
  let (exponent?,left) := readExponent afterFraction
  if fraction.isEmpty && exponent?.isNone then
    (.integer (Decimal.signed negative (Decimal.naturalD whole)),left)
  else
    let exponent := exponent?.getD 0 - fraction.length
    (.real (Binary64.ofDecimal negative (Decimal.naturalD (whole ++ fraction)) exponent),left)

theorem readNumber_eq {negative : Bool} {unsigned : List Char}
    (h : minus cs = (negative,unsigned)) :
    readNumber cs = (whole? unsigned).map fun (whole,afterWhole) =>
      numberFrom negative whole afterWhole := by
  have heq : readNumber cs =
      (whole? (minus cs).2).map fun found => numberFrom (minus cs).1 found.1 found.2 := by
    unfold readNumber numberFrom
    -- the two sides are compared without looking at how numbers are rounded
    generalize Binary64.ofDecimal = round
    rfl
  rw [heq,h]

theorem minus_text (n : Numeral) (rest : List Char) :
    minus (n.text ++ rest) = (n.negative,n.body ++ rest) := by
  obtain ⟨first,more,hw⟩ := List.exists_cons_of_ne_nil n.some_whole
  have hd : Decimal.isDigit first = true := List.all_eq_true.1 n.all_whole first (by simp [hw])
  unfold Numeral.text
  cases n.negative with
  | true => rfl
  | false =>
    rw [Numeral.body,hw]
    simp only [Bool.false_eq_true,if_false,List.cons_append]
    unfold minus
    split
    · rename_i heq
      rw [(List.cons.inj heq).1] at hd
      cases hd
    · rfl

theorem whole?_append (n : Numeral) (hr : ∀ c ∈ rest.head?, Decimal.isDigit c = false) :
    whole? (n.whole ++ rest) = some (n.whole,rest) := by
  obtain ⟨first,more,hw⟩ := List.exists_cons_of_ne_nil n.some_whole
  by_cases h0 : first = '0'
  · subst h0
    rw [n.whole_zero (by rw [hw]; rfl)]
    rfl
  · have htake := takeDigits_append n.all_whole hr
    rw [hw,List.cons_append] at htake ⊢
    unfold whole?
    split
    · rename_i heq
      exact absurd (List.cons.inj heq).1 h0
    · rw [htake]

theorem head?_exponentText {e : Option Exponent} (hr : Ends rest) :
    ∀ c ∈ (Numeral.exponentText e ++ rest).head?, Decimal.isDigit c = false ∧ c ≠ '.' := by
  intro c hc
  cases e with
  | none => exact ⟨(hr c hc).1,(hr c hc).2.1⟩
  | some e =>
    obtain rfl : e.mark = c := Option.some.inj hc
    unfold Exponent.mark
    cases e.capital <;> decide

theorem head?_fractionText {fraction : List Char}
    (hr : ∀ c ∈ rest.head?, Decimal.isDigit c = false) :
    ∀ c ∈ (Numeral.fractionText fraction ++ rest).head?, Decimal.isDigit c = false := by
  intro c hc
  cases fraction with
  | nil => exact hr c hc
  | cons d fraction =>
    obtain rfl : '.' = c := Option.some.inj hc
    decide

/-- The reader reads a number as it is written. -/
theorem readNumber_text (n : Numeral) (hr : Ends rest) :
    readNumber (n.text ++ rest) = some (n.datum,rest) := by
  have hexponent := head?_exponentText (e := n.exponent) hr
  have hbody : n.body ++ rest =
      n.whole ++
        (Numeral.fractionText n.fraction ++ (Numeral.exponentText n.exponent ++ rest)) := by
    rw [Numeral.body,List.append_assoc,List.append_assoc]
  rw [readNumber_eq (minus_text n rest),hbody,
    whole?_append n (head?_fractionText fun c hc => (hexponent c hc).1),
    Option.map_some]
  simp only [numberFrom,readFraction_append n.all_fraction hexponent,readExponent_append hr,
    Option.isNone_map]
  rw [Numeral.datum,Numeral.isInteger,Numeral.mantissa,Numeral.scale]
  split <;> rfl

theorem exists_fraction (cs : List Char) : ∃ fraction, fraction.all Decimal.isDigit = true ∧
    readFraction cs = (fraction,(readFraction cs).2) ∧
    cs = Numeral.fractionText fraction ++ (readFraction cs).2 := by
  cases cs with
  | nil => exact ⟨[],rfl,rfl,rfl⟩
  | cons c rest =>
    by_cases hc : c = '.'
    · subst hc
      cases htake : takeDigits rest with
      | mk digits left =>
        obtain ⟨hdigits,hrest⟩ := takeDigits_eq htake
        cases digits with
        | nil =>
          exact ⟨[],
            rfl,by simp [readFraction,htake],by simp [readFraction,htake,Numeral.fractionText]⟩
        | cons d digits =>
          exact ⟨d :: digits,hdigits,by simp [readFraction,htake],
            by simp [readFraction,htake,Numeral.fractionText]; exact hrest⟩
    · have hsame : readFraction (c :: rest) = ([],c :: rest) := by
        unfold readFraction
        split
        · rename_i heq
          exact absurd (List.cons.inj heq).1 hc
        · rfl
      exact ⟨[],rfl,by rw [hsame],by rw [hsame]; rfl⟩

theorem exists_sign (cs : List Char) :
    ∃ sign : Option Bool, cs = signText sign ++ (Decimal.splitSign cs).2 ∧
    (Decimal.splitSign cs).1 = (sign == some true) := by
  unfold Decimal.splitSign
  split
  · exact ⟨some true,rfl,rfl⟩
  · exact ⟨some false,rfl,rfl⟩
  · exact ⟨none,rfl,rfl⟩

theorem exists_exponent (cs : List Char) : ∃ e : Option Exponent,
    readExponent cs = (e.map Exponent.value,(readExponent cs).2) ∧
      cs = Numeral.exponentText e ++ (readExponent cs).2 := by
  cases cs with
  | nil => exact ⟨none,rfl,rfl⟩
  | cons c rest =>
    by_cases hc : (decide (c = 'e') || decide (c = 'E')) = true
    · obtain ⟨sign,hsign,hminus⟩ := exists_sign rest
      cases htake : takeDigits (Decimal.splitSign rest).2 with
      | mk digits left =>
        obtain ⟨hdigits,hrest⟩ := takeDigits_eq htake
        cases digits with
        | nil =>
          exact ⟨none,by simp [readExponent,hc,htake],by
            simp [readExponent,hc,htake,Numeral.exponentText]⟩
        | cons d digits =>
          have hmark : (if decide (c = 'E') = true then 'E' else 'e') = c := by
            by_cases hE : c = 'E'
            · simp [hE]
            · simpa [hE,eq_comm] using hc
          refine ⟨some ⟨decide (c = 'E'),sign,d :: digits,List.cons_ne_nil _ _,hdigits⟩,?_,?_⟩
          · simp [readExponent,hc,htake,Exponent.value,hminus]
          · rw [hrest] at hsign
            rw [Numeral.exponentText,Option.elim_some,Exponent.text,Exponent.mark,hmark]
            simpa [readExponent,hc,htake] using hsign
    · exact ⟨none,by simp [readExponent,hc],by simp [readExponent,hc,Numeral.exponentText]⟩

theorem whole?_eq_some {whole : List Char} (h : whole? cs = some (whole,rest)) :
    cs = whole ++ rest ∧ whole ≠ [] ∧ whole.all Decimal.isDigit = true ∧
    (whole.head? = some '0' → whole = ['0']) := by
  unfold whole? at h
  split at h
  · obtain ⟨rfl,rfl⟩ := Prod.mk.inj (Option.some.inj h)
    exact ⟨rfl,by simp,by decide,fun _ => rfl⟩
  · rename_i hzero
    split at h
    · cases h
    · rename_i hsome
      have htake := Option.some.inj h
      obtain ⟨hdigits,rfl⟩ := takeDigits_eq htake
      refine ⟨rfl,fun hnil => hsome rest (by rw [htake,hnil]),hdigits,fun hhead => ?_⟩
      obtain ⟨more,rfl⟩ : ∃ more, whole = '0' :: more := by
        cases whole with
        | nil => cases hhead
        | cons c more => exact ⟨more,by rw [Option.some.inj hhead]⟩
      exact absurd rfl (hzero (more ++ rest))

/-- What is read as a number is written as one. -/
theorem exists_numeral {v : Datum} (h : readNumber cs = some (v,left)) :
    ∃ n : Numeral, cs = n.text ++ left ∧ n.datum = v := by
  cases hm : minus cs with
  | mk negative unsigned =>
    rw [readNumber_eq hm] at h
    obtain ⟨⟨whole,afterWhole⟩,hw,hv⟩ := Option.map_eq_some_iff.1 h
    obtain ⟨hunsigned,hne,hall,hzero⟩ := whole?_eq_some hw
    obtain ⟨fraction,hall',hfraction,hafter⟩ := exists_fraction afterWhole
    obtain ⟨e,hexponent,hleft⟩ := exists_exponent (readFraction afterWhole).2
    obtain ⟨n,hn⟩ : ∃ n : Numeral, n = ⟨negative,whole,fraction,e,hne,hall,hzero,hall'⟩ := ⟨_,rfl⟩
    have hbody : unsigned = n.body ++ (readExponent (readFraction afterWhole).2).2 := by
      rw [hunsigned,hn,Numeral.body,List.append_assoc,List.append_assoc]
      exact congrArg _ (hafter.trans (congrArg _ hleft))
    have hnumber :
        numberFrom negative whole afterWhole =
        (n.datum,(readExponent (readFraction afterWhole).2).2) := by
      unfold numberFrom
      generalize (readFraction afterWhole).2 = after at *
      rw [hfraction]
      generalize (readExponent after).2 = left' at *
      simp only [hexponent,Option.isNone_map]
      rw [hn,Numeral.datum,Numeral.isInteger,Numeral.mantissa,Numeral.scale]
      split <;> rfl
    obtain ⟨hdatum,rfl⟩ := Prod.mk.inj (hnumber.symm.trans hv)
    have hcs : cs = if negative then '-' :: unsigned else unsigned := by
      unfold minus at hm
      split at hm <;> obtain ⟨rfl,rfl⟩ := Prod.mk.inj hm <;> rfl
    refine ⟨n,?_,hdatum⟩
    rw [hcs,hbody,Numeral.text,hn]
    split <;> rfl

end OperationHooks.Json
