import OperationHooks.Proofs.Json.Written
import OperationHooks.Proofs.Yaml.Cursor
/-!
JSON strings as quoted texts. The escapes of a JSON string are escapes of a quoted text and stand
for the same characters, but for the halves of pairs: a quoted text has no character for them.
-/
set_option autoImplicit false

namespace OperationHooks.Json

/-- What a part is in a quoted text. -/
def Part.piece : Part → Option Char
  | .raw c _ => some c
  | .short _ value _ => some value
  | .unicode _ code _ _ => if isSurrogate code then none else some (Char.ofNat code)

def Part.isPlain : Part → Bool
  | .raw c _ => Yaml.isPrintable c && !Yaml.isBreak c
  | _ => true

namespace Quotation

def isPlain (q : Quotation) : Bool := q.all Part.isPlain

def pieces (q : Quotation) : List (Option Char) := q.map Part.piece

@[simp] theorem inner_nil : inner [] = [] := rfl

@[simp] theorem inner_cons (p : Part) (q : Quotation) : inner (p :: q) = p.text ++ inner q := rfl

@[simp] theorem pieces_nil : pieces [] = [] := rfl

@[simp] theorem pieces_cons (p : Part) (q : Quotation) :
  pieces (p :: q) = p.piece :: pieces q := rfl

theorem isPlain_cons {p : Part} {q : Quotation} :
    isPlain (p :: q) = true ↔ p.isPlain = true ∧ isPlain q = true := by
  rw [isPlain,List.all_cons,Bool.and_eq_true,isPlain]

end Quotation

theorem digitsFrom_lt {base n : Nat} {digits : List Char} :
    ∀ acc, Decimal.digitsFrom base acc digits = some n →
    n < (acc + 1) * Nat.pow base digits.length := by
  induction digits with
  | nil =>
    intro acc h
    obtain rfl := Option.some.inj h
    exact Nat.lt_of_lt_of_eq (Nat.lt_succ_self acc) (Nat.mul_one _).symm
  | cons d digits ih =>
    intro acc h
    rw [Decimal.digitsFrom] at h
    obtain ⟨value,hvalue,hrest⟩ := Option.bind_eq_some_iff.1 h
    have hlt : value < base := by
      unfold Decimal.digitValue? at hvalue
      exact of_decide_eq_true (Option.filter_eq_some_iff.1 hvalue).2
    have hpow : Nat.pow base (d :: digits).length = Nat.pow base digits.length * base := rfl
    calc n < (acc * base + value + 1) * Nat.pow base digits.length := ih _ hrest
      _ ≤ (acc + 1) * base * Nat.pow base digits.length := by
        refine Nat.mul_le_mul_right _ ?_
        rw [Nat.succ_mul]
        omega
      _ = (acc + 1) * Nat.pow base (d :: digits).length := by
        rw [hpow,Nat.mul_assoc,Nat.mul_comm base]

theorem code_lt {digits : List Char} {code : Nat} (hlen : digits.length = 4)
    (h : Decimal.natural? 16 digits = some code) : code < 65536 := by
  have hne : digits ≠ [] := fun hnil => by rw [hnil] at hlen; cases hlen
  have hfrom : Decimal.digitsFrom 16 0 digits = some code := by
    unfold Decimal.natural? at h
    split at h
    · exact absurd rfl hne
    · exact h
  have hpow : Nat.pow 16 4 = 65536 := rfl
  have hlt := digitsFrom_lt 0 hfrom
  rw [hlen,hpow] at hlt
  omega

end OperationHooks.Json

namespace OperationHooks.Yaml

open Cursor Json

variable {c : Cursor} {rest : List Char}

theorem charOfCode_eq {digits : List Char} {code : Nat} (hlen : digits.length = 4)
    (h : Decimal.natural? 16 digits = some code) :
    charOfCode code = .ok (Part.unicode digits code hlen h).piece := by
  have hlt := code_lt hlen h
  have hpow : Nat.pow 2 31 = 2147483648 := rfl
  rw [charOfCode,if_neg (by omega),if_neg (by omega),Part.piece,Part.isSurrogate]
  by_cases hs : (decide (0xD800 ≤ code) && decide (code < 0xE000)) = true
  · rw [if_pos hs,if_pos hs]
  · rw [if_neg hs,if_neg hs]

theorem simpleEscape?_of_mem {mark value : Char} (h : (mark,value) ∈ shortEscapes) :
    simpleEscape? mark = some value := by
  simp only [shortEscapes,List.mem_cons,Prod.mk.injEq,List.not_mem_nil,or_false] at h
  rcases h with h | h | h | h | h | h | h | h <;> obtain ⟨rfl,rfl⟩ := h <;> rfl

theorem exists_quotedEscape {p : Part} (hraw : ∀ ch h, p ≠ .raw ch h)
    (hc : c.rest = p.text ++ rest) :
    ∃ last, quotedEscape c = .ok ([p.piece],last) ∧ Passes p.text c last := by
  cases p with
  | raw ch h => exact absurd rfl (hraw ch h)
  | short mark value h =>
    have hhead : c.rest = '\\' :: mark :: rest := hc
    have hslash := passes_forward hhead
    have hbody : c.forward.rest = mark :: rest := hslash.rest_eq hhead
    refine ⟨c.forward.forward,?_,hslash.trans (passes_forward hbody)⟩
    simp only [quotedEscape,peek_zero hbody,simpleEscape?_of_mem h]
    rfl
  | unicode digits code hlen h =>
    have hhead : c.rest = '\\' :: 'u' :: (digits ++ rest) := hc
    have hslash := passes_forward hhead
    have hbody : c.forward.rest = 'u' :: (digits ++ rest) := hslash.rest_eq hhead
    have hmark := passes_forward hbody
    have hdigits : c.forward.forward.rest = digits ++ rest := hmark.rest_eq hbody
    have htake : c.forward.forward.rest.take 4 = digits := by rw [hdigits,← hlen,List.take_left]
    have hskip := passes_skip digits _ hdigits
    rw [hlen] at hskip
    refine ⟨c.forward.forward.skip 4,?_,(hslash.trans hmark).trans hskip⟩
    have hsimple : simpleEscape? 'u' = none := rfl
    have hwidth : escapeWidth? 'u' = some 4 := rfl
    simp only [quotedEscape,peek_zero hbody,hsimple,hwidth,htake,h,hlen,if_true,
      charOfCode_eq hlen h]
    rfl

structure Runs (test : Char → Bool) (q : Quotation) (run : List Char)
    (more : Quotation) : Prop where
  inner : Quotation.inner q = run ++ Quotation.inner more
  pieces : Quotation.pieces q = run.map some ++ Quotation.pieces more
  passes : ∀ ch ∈ run, test ch = true
  stops : ∀ rest, ∀ ch ∈ (Quotation.inner more ++ '"' :: rest).head?, test ch = false
  length : q.length = run.length + more.length
  plain : Quotation.isPlain more = true

theorem exists_run (test : Char → Bool) (hquote : test '"' = false)
    (hslash : test '\\' = false) (q : Quotation)
    (hplain : Quotation.isPlain q = true) : ∃ run more, Runs test q run more := by
  have hnone : ∀ q : Quotation, Quotation.isPlain q = true →
      (∀ rest, ∀ ch ∈ (Quotation.inner q ++ '"' :: rest).head?, test ch = false) →
      Runs test q [] q :=
    fun q hplain hstops => ⟨rfl,rfl,by simp,hstops,by simp,hplain⟩
  induction q with
  | nil =>
    refine ⟨[],[],hnone [] hplain fun rest ch hch => ?_⟩
    obtain rfl : '"' = ch := Option.some.inj hch
    exact hquote
  | cons p q ih =>
    obtain ⟨hp,hq⟩ := Quotation.isPlain_cons.1 hplain
    cases p with
    | raw ch h =>
      by_cases htest : test ch = true
      · obtain ⟨run,more,hruns⟩ := ih hq
        refine ⟨ch :: run,more,?_,?_,?_,hruns.stops,?_,hruns.plain⟩
        · rw [Quotation.inner_cons,hruns.inner]; rfl
        · rw [Quotation.pieces_cons,hruns.pieces]; rfl
        · rintro x hx
          rcases List.mem_cons.1 hx with rfl | hx
          · exact htest
          · exact hruns.passes x hx
        · have hlen := hruns.length
          simp only [List.length_cons]; omega
      · refine ⟨[],_,hnone _ hplain fun rest x hx => ?_⟩
        obtain rfl : ch = x := Option.some.inj hx
        exact Bool.eq_false_iff.2 htest
    | short mark value h =>
      refine ⟨[],_,hnone _ hplain fun rest x hx => ?_⟩
      obtain rfl : '\\' = x := Option.some.inj hx
      exact hslash
    | unicode digits code hlen h =>
      refine ⟨[],_,hnone _ hplain fun rest x hx => ?_⟩
      obtain rfl : '\\' = x := Option.some.inj hx
      exact hslash

/-- A run takes the first part, if that passes the test. -/
theorem Runs.length_lt {test : Char → Bool} {q : Quotation} {run : List Char}
    {more : Quotation} {ch : Char}
    {h : isRaw ch = true} (hruns : Runs test (.raw ch h :: q) run more) (htest : test ch = true) :
    more.length < (Part.raw ch h :: q).length := by
  cases run with
  | nil =>
    have hstop :=
      hruns.stops [] ch (by rw [← List.nil_append (Quotation.inner more),← hruns.inner]; rfl)
    rw [htest] at hstop
    cases hstop
  | cons x run =>
    rw [hruns.length,List.length_cons]
    omega

theorem isBreak_head (q : Quotation) (hplain : Quotation.isPlain q = true) (rest : List Char) :
    ∀ ch ∈ (Quotation.inner q ++ '"' :: rest).head?, isBreak ch = false := by
  intro ch hch
  cases q with
  | nil =>
    obtain rfl : '"' = ch := Option.some.inj hch
    decide
  | cons p q =>
    obtain ⟨hp,-⟩ := Quotation.isPlain_cons.1 hplain
    cases p with
    | raw x h =>
      obtain rfl : x = ch := Option.some.inj hch
      simp only [Part.isPlain,Bool.and_eq_true,Bool.not_eq_true'] at hp
      exact hp.2
    | short mark value h =>
      obtain rfl : '\\' = ch := Option.some.inj hch
      decide
    | unicode digits code hlen h =>
      obtain rfl : '\\' = ch := Option.some.inj hch
      decide

theorem quotedFrom_close (hc : c.rest = '"' :: rest) (fuel : Nat) :
    quotedFrom true (fuel + 1) c = .ok ([],c.forward) := by
  rw [quotedFrom,hc]
  rfl

section Steps

variable {next last : Cursor} {pieces : List (Option Char)} {ch : Char} {fuel : Nat}

theorem quotedFrom_escape {text : List (Option Char)} (hc : c.rest = '\\' :: rest)
    (hescape : quotedEscape c = .ok (text,next))
    (hnext : quotedFrom true fuel next = .ok (pieces,last)) :
    quotedFrom true (fuel + 1) c = .ok (text ++ pieces,last) := by
  rw [quotedFrom,hc]
  dsimp only
  rw [if_neg (by decide),if_neg (by decide),if_pos (by decide),hescape]
  change (quotedFrom true fuel next >>= _) = _
  rw [hnext]
  rfl

theorem quotedFrom_gap {gap : List Char} (hc : c.rest = ch :: rest) (hch : isGapOrEnd ch = true)
    (hne : ch ≠ '\'' ∧ ch ≠ '"' ∧ ch ≠ '\\') (hgap : quotedGap c = some (gap,next))
    (hnext : quotedFrom true fuel next = .ok (pieces,last)) :
    quotedFrom true (fuel + 1) c = .ok (gap.map some ++ pieces,last) := by
  rw [quotedFrom,hc]
  dsimp only
  rw [if_neg (by simp),if_neg (by simpa using hne.2.1),
    if_neg (by simpa using hne.2.2),if_pos hch,hgap]
  exact congrArg (· >>= _) hnext

theorem quotedFrom_text {run : List Char} (hc : c.rest = ch :: rest) (hch : isQuotedText ch = true)
    (hspan : c.span isQuotedText = (run,next))
    (hnext : quotedFrom true fuel next = .ok (pieces,last)) :
    quotedFrom true (fuel + 1) c = .ok (run.map some ++ pieces,last) := by
  have hne : ¬ ch = '\'' ∧ ¬ ch = '"' ∧ ¬ ch = '\\' ∧ isGapOrEnd ch = false := by
    simpa [isQuotedText,and_assoc] using hch
  rw [quotedFrom,hc]
  dsimp only
  rw [if_neg (by simp),if_neg (by simpa using hne.2.1),if_neg (by simpa using hne.2.2.1),
    if_neg (by simp [hne.2.2.2]),if_pos hch,hspan]
  exact congrArg (· >>= _) hnext

theorem quotedFrom_mark (hc : c.rest = '\'' :: rest)
    (hnext : quotedFrom true fuel c.forward = .ok (pieces,last)) :
    quotedFrom true (fuel + 1) c = .ok (some '\'' :: pieces,last) := by
  rw [quotedFrom,hc]
  dsimp only
  rw [if_neg (by decide),if_neg (by decide),if_neg (by decide),if_neg (by decide),
    if_neg (by decide)]
  exact congrArg (· >>= _) hnext

end Steps

theorem quotedGap_eq {run : List Char} {more : Quotation}
    (hc : c.rest = run ++ (Quotation.inner more ++ '"' :: rest))
    (hrun : ∀ ch ∈ run, (ch == ' ' || ch == '\t') = true)
    (hstop : ∀ ch ∈ (Quotation.inner more ++ '"' :: rest).head?, (ch == ' ' || ch == '\t') = false)
    (hplain : Quotation.isPlain more = true) : quotedGap c = some (run,c.skip run.length) := by
  have hbehind := (passes_skip run c hc).rest_eq hc
  have hspan := span_eq hc hrun hstop
  generalize c.skip run.length = after at hspan hbehind
  obtain ⟨ch,tail,hhead⟩ : ∃ ch tail, Quotation.inner more ++ '"' :: rest = ch :: tail :=
    List.exists_cons_of_ne_nil (by simp)
  have hbreak : isBreak (after.peek 0) = false := by
    rw [peek_zero (hbehind.trans hhead)]
    exact isBreak_head more hplain rest ch (by rw [hhead]; rfl)
  have hend : after.atEnd = false := by rw [atEnd,hbehind,hhead]; rfl
  rw [quotedGap,hspan]
  simp [hend,hbreak]

/-- The reader of quoted texts reads a plain string, and its closing quote. -/
theorem exists_quotedFrom (q : Quotation) : Quotation.isPlain q = true → ∀ (fuel : Nat)
    (c : Cursor), q.length < fuel →
    c.rest = Quotation.inner q ++ '"' :: rest → ∃ last,
      quotedFrom true fuel c = .ok (Quotation.pieces q,last) ∧
      Passes (Quotation.inner q ++ ['"']) c last := by
  induction hn : q.length using Nat.strongRecOn generalizing q with
  | _ n ih =>
    intro hplain fuel c hf hc
    subst hn
    obtain ⟨fuel,rfl⟩ : ∃ k, fuel = k + 1 := Nat.exists_eq_add_one.2 (by omega)
    cases q with
    | nil => exact ⟨c.forward,quotedFrom_close hc fuel,passes_forward hc⟩
    | cons p q =>
      obtain ⟨hp,hq⟩ := Quotation.isPlain_cons.1 hplain
      -- a run of characters is taken at once, and then the rest of the string
      have hrun : ∀ {test : Char → Bool} {ch : Char} {h : isRaw ch = true} {run : List Char}
          {more : Quotation},
          p = .raw ch h → test ch = true → Runs test (p :: q) run more →
          (∀ {pieces : List (Option Char)} {last : Cursor},
            c.rest = run ++ (Quotation.inner more ++ '"' :: rest) →
            quotedFrom true fuel (c.skip run.length) = .ok (pieces,last) →
            quotedFrom true (fuel + 1) c = .ok (run.map some ++ pieces,last)) →
          ∃ last, quotedFrom true (fuel + 1) c = .ok (Quotation.pieces (p :: q),last) ∧
            Passes (Quotation.inner (p :: q) ++ ['"']) c last := by
        rintro test ch h run more rfl htest hruns hstep
        have hlt := hruns.length_lt htest
        have hc' :
            c.rest = run ++ (Quotation.inner more ++ '"' :: rest) := by
            rw [hc,hruns.inner,List.append_assoc]
        have hskip := passes_skip run c hc'
        obtain ⟨last,hlast,hpasses⟩ :=
          ih more.length hlt more rfl hruns.plain fuel _ (by omega) (hskip.rest_eq hc')
        refine ⟨last,?_,(hskip.trans hpasses).of_eq ?_⟩
        · rw [hstep hc' hlast,hruns.pieces]
        · rw [hruns.inner,List.append_assoc]
      have hescape : (∀ ch h, p ≠ .raw ch h) → ∃ last,
          quotedFrom true (fuel + 1) c = .ok (Quotation.pieces (p :: q),last) ∧
            Passes (Quotation.inner (p :: q) ++ ['"']) c last := by
        intro hraw
        have hc' : c.rest = p.text ++ (Quotation.inner q ++ '"' :: rest) := by
          rw [hc,Quotation.inner_cons,List.append_assoc]
        obtain ⟨next,hnext,hskip⟩ := exists_quotedEscape hraw hc'
        obtain ⟨last,hlast,hpasses⟩ :=
          ih q.length (by simp) q rfl hq fuel next (by simp at hf; omega) (hskip.rest_eq hc')
        obtain ⟨tail,htail⟩ : ∃ tail, c.rest = '\\' :: tail := by
          cases p with
          | raw ch h => exact absurd rfl (hraw ch h)
          | short mark value h => exact ⟨_,hc'⟩
          | unicode digits code hlen h => exact ⟨_,hc'⟩
        refine ⟨last,quotedFrom_escape htail hnext hlast,(hskip.trans hpasses).of_eq ?_⟩
        rw [Quotation.inner_cons,List.append_assoc]
      cases p with
      | short mark value h => exact hescape (by simp)
      | unicode digits code hlen h => exact hescape (by simp)
      | raw ch h =>
        have hhead : c.rest = ch :: (Quotation.inner q ++ '"' :: rest) := hc
        have hne : ch ≠ '"' ∧ ch ≠ '\\' ∧ 32 ≤ ch.toNat := by simpa [isRaw,and_assoc] using h
        by_cases hspace : ch = ' '
        · obtain ⟨run,more,hruns⟩ := exists_run (fun ch => ch == ' ' || ch == '\t') rfl rfl _ hplain
          exact hrun rfl (by simp [hspace]) hruns fun hc' hlast =>
            quotedFrom_gap hhead (by rw [hspace]; decide) ⟨by rw [hspace]; decide,hne.1,hne.2.1⟩
              (quotedGap_eq hc' hruns.passes (hruns.stops rest) hruns.plain) hlast
        by_cases hmark : ch = '\''
        · subst hmark
          have hforward := passes_forward hhead
          obtain ⟨last,hlast,hpasses⟩ := ih q.length (by simp) q rfl hq fuel c.forward
            (by simp at hf; omega)
            (hforward.rest_eq hhead)
          exact ⟨last,quotedFrom_mark hhead hlast,hforward.trans hpasses⟩
        · have htext : isQuotedText ch = true := by
            simp only [Part.isPlain,Bool.and_eq_true,Bool.not_eq_true'] at hp
            have htab : ch ≠ '\t' := by rintro rfl; exact absurd hne.2.2 (by decide)
            have hnull : ch ≠ '\x00' := by rintro rfl; exact absurd hne.2.2 (by decide)
            simp [isQuotedText,isGapOrEnd,isBreakOrEnd,hp.2,hne.1,hne.2.1,hspace,hmark,htab,hnull]
          obtain ⟨run,more,hruns⟩ := exists_run isQuotedText rfl rfl _ hplain
          exact hrun rfl htext hruns fun hc' hlast =>
            quotedFrom_text hhead htext (span_eq hc' hruns.passes (hruns.stops rest)) hlast

end OperationHooks.Yaml
