import Mathlib.Data.List.Forall2
import OperationHooks.Proofs.Config
/-!
Tables that give the same settings. Two data agree as a setting if they are coerced to the same
value or to none; tables that agree entry by entry configure the same. A text with a character
beyond those that settings are written in is never coerced to anything.
-/
set_option autoImplicit false

namespace OperationHooks

def IsForeign (cs : List Char) : Prop := ∃ c ∈ cs, 0xFFFD ≤ c.toNat

namespace IsForeign

variable {cs ds : List Char} {test : Char → Bool}

theorem of_subset (h : IsForeign cs) (hsub : ∀ c ∈ cs, 0xFFFD ≤ c.toNat → c ∈ ds) :
    IsForeign ds := by
  obtain ⟨c,hc,hfar⟩ := h
  exact ⟨c,hsub c hc hfar,hfar⟩

theorem of_cons {c : Char} (h : IsForeign (c :: cs)) (hc : c.toNat < 0xFFFD) : IsForeign cs := by
  obtain ⟨d,hd,hfar⟩ := h
  rcases List.mem_cons.1 hd with rfl | hd
  · exact absurd hfar (Nat.not_le_of_lt hc)
  · exact ⟨d,hd,hfar⟩

theorem dropWhile (h : IsForeign cs) (htest : ∀ c : Char, 0xFFFD ≤ c.toNat → test c = false) :
    IsForeign (cs.dropWhile test) := by
  refine h.of_subset fun c hc hfar => ?_
  rw [← List.takeWhile_append_dropWhile (p := test) (l := cs)] at hc
  rcases List.mem_append.1 hc with hc | hc
  · have hpass := List.all_eq_true.1 List.all_takeWhile c hc
    rw [htest c hfar] at hpass
    cases hpass
  · exact hc

theorem reverse (h : IsForeign cs) : IsForeign cs.reverse :=
  h.of_subset fun _ hc _ => List.mem_reverse.2 hc

theorem not_digit {c : Char} (hfar : 0xFFFD ≤ c.toNat) : Decimal.isDigit c = false := by
  refine Bool.and_eq_false_iff.2 (.inr (decide_eq_false fun hle => ?_))
  have hnine : c.toNat ≤ 57 := hle
  omega

theorem ne_of_lt {c d : Char} (hfar : 0xFFFD ≤ c.toNat) (hd : d.toNat < 0xFFFD) : c ≠ d := by
  rintro rfl
  omega

/-- A foreign text is none of some words. -/
theorem not_mem {s : String} {words : List String} (h : IsForeign s.toList)
    (hwords : (words.all fun word => word.toList.all fun c => decide (c.toNat < 0xFFFD)) =
      true) : s ∉ words := by
  intro hmem
  obtain ⟨c,hc,hfar⟩ := h
  have := List.all_eq_true.1 (List.all_eq_true.1 hwords s hmem) c hc
  exact absurd hfar (Nat.not_le_of_lt (of_decide_eq_true this))

theorem trimText (h : IsForeign cs) : IsForeign (Datum.trimText cs) := by
  have hspace : ∀ c : Char, 0xFFFD ≤ c.toNat → Datum.isTextSpace c = false := by
    intro c hfar
    refine Bool.and_eq_false_iff.2 (.inl ?_)
    simp only [Text.isBlank,Bool.or_eq_false_iff,Bool.and_eq_false_iff,beq_eq_false_iff_ne,
      decide_eq_false_iff_not]
    omega
  exact (((h.dropWhile hspace).reverse).dropWhile hspace).reverse

theorem splitSign (h : IsForeign cs) : IsForeign (Decimal.splitSign cs).2 := by
  unfold Decimal.splitSign
  split
  · exact h.of_cons (by decide)
  · exact h.of_cons (by decide)
  · exact h

theorem behindZeros (cs : List Char) :
    ∀ last, IsForeign cs → ∀ ds, Datum.behindZeros last cs = some ds → IsForeign ds := by
  induction cs with
  | nil => exact fun _ h => absurd h (by simp [IsForeign])
  | cons c cs ih =>
    intro last h ds hds
    rw [Datum.behindZeros] at hds
    split at hds
    · rename_i hzero
      refine ih c (h.of_cons ?_) ds hds
      rcases Bool.or_eq_true_iff.1 hzero with hc | hc <;> rw [eq_of_beq hc] <;> decide
    · split at hds
      · exact Option.some.inj hds ▸ h
      · split at hds
        · exact Option.some.inj hds ▸ h.of_subset fun d hd _ => List.mem_cons_of_mem _ hd
        · cases hds

theorem withoutLeadingZeros (h : IsForeign cs) (hds : Datum.withoutLeadingZeros cs = some ds) :
    IsForeign ds := by
  cases cs with
  | nil => cases hds
  | cons c cs =>
    rw [Datum.withoutLeadingZeros] at hds
    split at hds
    · rename_i hzero
      exact behindZeros cs c (h.of_cons (by rw [eq_of_beq hzero]; decide)) ds hds
    · split at hds
      · exact Option.some.inj hds ▸ h
      · cases hds

theorem withoutZeroFraction (h : IsForeign cs) : IsForeign (Datum.withoutZeroFraction cs) := by
  unfold Datum.withoutZeroFraction
  dsimp only
  split
  · rename_i hzeros
    refine h.of_subset fun c hc hfar => ?_
    have hleft :
        (cs.takeWhile (· != '.') ++ cs.dropWhile (· != '.')).drop (cs.takeWhile (· != '.')).length =
        cs.dropWhile (· != '.') := List.drop_left
    rw [List.takeWhile_append_dropWhile] at hleft
    have hfraction :
        cs.drop ((cs.takeWhile (· != '.')).length + 1) = (cs.dropWhile (· != '.')).drop 1 := by
      rw [← List.drop_drop,hleft]
    rw [← List.takeWhile_append_dropWhile (p := (· != '.')) (l := cs)] at hc
    rcases List.mem_append.1 hc with hc | hc
    · exact hc
    · rw [hfraction,Bool.and_eq_true] at hzeros
      cases hrest : cs.dropWhile (· != '.') with
      | nil => rw [hrest] at hc; cases hc
      | cons d rest =>
        have hd : d = '.' := by
          have := List.head_dropWhile_not (p := (· != '.')) (l := cs) (by simp [hrest])
          simpa [hrest] using this
        rw [hrest] at hc hzeros
        rcases List.mem_cons.1 hc with rfl | hc
        · exact absurd hd (ne_of_lt hfar (by decide))
        · have hzero := List.all_eq_true.1 hzeros.2 c hc
          exact absurd (eq_of_beq hzero) (ne_of_lt hfar (by decide))
  · exact h

theorem withoutMarks (h : IsForeign cs) : IsForeign (Datum.withoutMarks cs) := by
  unfold Datum.withoutMarks
  split
  · exact h
  · exact h.of_subset fun c hc hfar =>
      List.mem_filter.2 ⟨hc,bne_iff_ne.2 (ne_of_lt hfar (by decide))⟩

theorem length_run_lt (h : IsForeign cs) : (cs.takeWhile Decimal.isDigit).length < cs.length := by
  refine Nat.lt_of_le_of_ne (List.takeWhile_prefix _).length_le fun heq => ?_
  obtain ⟨c,hc,hfar⟩ := h
  rw [← (List.takeWhile_prefix Decimal.isDigit).eq_of_length heq] at hc
  have hdigit := List.all_eq_true.1 List.all_takeWhile c hc
  rw [not_digit hfar] at hdigit
  cases hdigit

theorem numeral (h : IsForeign cs) (n : Int) : Datum.numeral cs ≠ .ok n := by
  have hdigits : IsForeign (if (cs.head? == some '-') = true then cs.drop 1 else cs) := by
    split
    · rename_i hminus
      cases cs with
      | nil => cases hminus
      | cons c cs =>
        obtain rfl : c = '-' := Option.some.inj (eq_of_beq hminus)
        exact h.of_cons (by decide)
    · exact h
  have hfails : ∀ {test : Prop} [Decidable test] {cause : Mismatch}
      {r : Except Mismatch Int}, r ≠ .ok n →
      (if test then .error cause else r) ≠ .ok n := by
    intro test _ cause r hr
    split
    · exact nofun
    · exact hr
  unfold Datum.numeral
  dsimp only
  refine hfails (hfails ?_)
  rw [if_pos hdigits.length_run_lt]
  exact nofun

theorem textToInteger {s : String} (h : IsForeign s.toList) (n : Int) :
    Datum.textToInteger s ≠ .ok n := by
  have hunsigned := h.trimText.splitSign
  unfold Datum.textToInteger
  dsimp only
  cases hzeros : Datum.withoutLeadingZeros (Decimal.splitSign (Datum.trimText s.toList)).2 with
  | none => exact nofun
  | some ds =>
    have hds := (hunsigned.withoutLeadingZeros hzeros).withoutZeroFraction.withoutMarks
    refine numeral ?_ n
    split
    · exact hds.of_subset fun c hc _ => List.mem_cons_of_mem _ hc
    · exact hds

theorem textToBoolean {s : String} (h : IsForeign s.toList) (b : Bool) :
    Datum.textToBoolean s ≠ .ok b := by
  have hlower : IsForeign (Datum.asciiLower s).toList := by
    rw [Datum.asciiLower,String.toList_ofList]
    obtain ⟨c,hc,hfar⟩ := h
    refine ⟨c,List.mem_map.2 ⟨c,hc,dif_neg fun hupper => ?_⟩,hfar⟩
    have hle : c.toNat ≤ 90 := hupper.2
    omega
  unfold Datum.textToBoolean
  dsimp only
  rw [if_neg (by simpa only [List.contains_iff_mem] using hlower.not_mem (by decide)),
    if_neg (by simpa only [List.contains_iff_mem] using hlower.not_mem (by decide))]
  exact nofun

end IsForeign

namespace Format.Options

open Reading

variable {es es' : List (Datum × Datum)} {d d' : Datum} {name : String} {o : Options}
  {extension : String}

def numberSettings : List String :=
  ["printWidth","print_width","tabWidth","tab_width","useTabs","use_tabs","semi",
    "singleQuote","single_quote"]

def Same {α : Type} (coerce : Datum → Except Mismatch α) (d d' : Datum) : Prop :=
  ∀ x, coerce d = .ok x ↔ coerce d' = .ok x

theorem Same.of_none {α : Type} {coerce : Datum → Except Mismatch α} (h : ∀ x, coerce d ≠ .ok x)
    (h' : ∀ x, coerce d' ≠ .ok x) : Same coerce d d' :=
      fun x => ⟨fun hx => absurd hx (h x),fun hx => absurd hx (h' x)⟩

/-- Two data set the same under a name. -/
structure Agrees (name : String) (d d' : Datum) : Prop where
  choice : Same (Datum.toChoice commaChoices .notAmongTexts) d d'
  integer : name ∈ numberSettings → Same Datum.toInteger d d'
  boolean : name ∈ numberSettings → Same Datum.toBoolean d d'

theorem Agrees.refl (name : String) (d : Datum) : Agrees name d d :=
  ⟨fun _ => .rfl,fun _ _ => .rfl,fun _ _ => .rfl⟩

structure SetsNothing (d : Datum) : Prop where
  choice : ∀ x, d.toChoice commaChoices .notAmongTexts ≠ .ok x
  integer : ∀ n, d.toInteger ≠ .ok n
  boolean : ∀ b, d.toBoolean ≠ .ok b

theorem SetsNothing.agrees (h : SetsNothing d) (h' : SetsNothing d') : Agrees name d d' :=
  ⟨.of_none h.choice h'.choice,fun _ => .of_none h.integer h'.integer,
    fun _ => .of_none h.boolean h'.boolean⟩

/-- A text other than the words for commas is no choice of them. -/
theorem toChoice_text {s : String} (h : s ∉ ["none","es5","all"]) (x : TrailingComma) :
    (Datum.text s).toChoice commaChoices .notAmongTexts ≠ .ok x := by
  have hnone : commaChoices.lookup s = none := by
    refine List.lookup_eq_none_iff.2 fun choice hmem => bne_iff_ne.2 ?_
    rintro rfl
    exact h (List.mem_map_of_mem (f := Prod.fst) hmem)
  rw [Datum.toChoice,hnone]
  exact nofun

theorem setsNothing_of_isForeign {s : String} (h : IsForeign s.toList) : SetsNothing (.text s) where
  choice := toChoice_text (h.not_mem (by decide))
  integer := h.textToInteger
  boolean := h.textToBoolean

theorem setsNothing_brokenText : SetsNothing .brokenText := ⟨nofun,nofun,nofun⟩

theorem setsNothing_list (items : List Datum) : SetsNothing (.list items) := ⟨nofun,nofun,nofun⟩

theorem setsNothing_table (entries : List (Datum × Datum)) : SetsNothing (.table entries) :=
  ⟨nofun,nofun,nofun⟩

/-- One entry of a table that is looked through for a name. -/
def seen (name : String) (found : Option Datum) (pair : Datum × Datum) : Option Datum :=
  match pair with
  | (.text k,value) => if k == name then some value else found
  | _ => found

theorem seen_cases (name : String) (found : Option Datum) (pair : Datum × Datum) :
    pair.1 = .text name ∧ seen name found pair = some pair.2 ∨ pair.1 ≠ .text name ∧
    seen name found pair = found := by
  obtain ⟨key,value⟩ := pair
  cases key with
  | text k =>
    by_cases hk : k = name
    · exact .inl ⟨by rw [hk],if_pos (beq_iff_eq.2 hk)⟩
    · exact .inr ⟨fun heq => hk (Datum.text.inj heq),if_neg fun heq => hk (eq_of_beq heq)⟩
  | _ => exact .inr ⟨nofun,rfl⟩

/-- What is under a name in two tables whose entries are related one by one is related. -/
theorem find?_rel {R : Datum → Datum → Prop} (h : List.Forall₂ (fun pair pair' =>
    (pair.1 = .text name ↔ pair'.1 = .text name) ∧
    (pair'.1 = .text name → R pair.2 pair'.2)) es es') :
    Option.Rel R (Datum.find? name es) (Datum.find? name es') := by
  have hfrom : ∀ found found', Option.Rel R found found' →
      Option.Rel R (es.foldl (seen name) found) (es'.foldl (seen name) found') := by
    induction h with
    | nil => exact fun _ _ hfound => hfound
    | @cons pair pair' es es' hpair _ ih =>
      intro found found' hfound
      refine ih _ _ ?_
      rcases seen_cases name found pair with ⟨hk,hs⟩ | ⟨hk,hs⟩
      · rcases seen_cases name found' pair' with ⟨hk',hs'⟩ | ⟨hk',hs'⟩
        · rw [hs,hs']
          exact .some (hpair.2 hk')
        · exact absurd (hpair.1.1 hk) hk'
      · rcases seen_cases name found' pair' with ⟨hk',hs'⟩ | ⟨hk',hs'⟩
        · exact absurd (hpair.1.2 hk') hk
        · rw [hs,hs']
          exact hfound
  exact hfrom none none .none

section Congruence

variable {α : Type} {coerce : Datum → Except Mismatch α} {names : List String} {otherwise x : α}

theorem setting?_rel {R : Datum → Datum → Prop}
    (h : ∀ name ∈ names, Option.Rel R (Datum.find? name es) (Datum.find? name es')) :
    Option.Rel R (setting? es names) (setting? es' names) := by
  induction names with
  | nil => exact .none
  | cons name names ih =>
    have hname := h name List.mem_cons_self
    rw [setting?,setting?,List.findSome?_cons,List.findSome?_cons]
    revert hname
    cases Datum.find? name es <;> cases Datum.find? name es' <;> intro hname
    · exact ih fun other hmem => h other (List.mem_cons_of_mem _ hmem)
    · cases hname
    · cases hname
    · exact hname

theorem gives_congr
    (h : ∀ name ∈ names, Option.Rel (Same coerce) (Datum.find? name es) (Datum.find? name es')) :
    Gives es names otherwise coerce x ↔ Gives es' names otherwise coerce x := by
  have hrel := setting?_rel h
  unfold Gives Sets
  revert hrel
  cases setting? es names <;> cases setting? es' names <;> intro hrel
  · rfl
  · cases hrel
  · cases hrel
  · cases hrel with
    | some hsame => simp [hsame x]

end Congruence

/-- Tables that agree under every name of a setting give the same options. -/
theorem ofConfig_congr (h : ∀ name ∈ "trailingComma" :: "trailing_comma" :: numberSettings,
    Option.Rel (Agrees name) (Datum.find? name es) (Datum.find? name es')) :
    ofConfig extension es = .ok o ↔ ofConfig extension es' = .ok o := by
  have hmono : ∀ {R S : Datum → Datum → Prop} {x y : Option Datum}, Option.Rel R x y →
      (∀ d d', R d d' → S d d') →
      Option.Rel S x y := by
    intro R S x y h hrs
    cases h with
    | none => exact .none
    | some hr => exact .some (hrs _ _ hr)
  have hinteger : ∀ names : List String, (∀ name ∈ names, name ∈ numberSettings) → ∀ name ∈ names,
      Option.Rel (Same Datum.toInteger) (Datum.find? name es) (Datum.find? name es') :=
        fun names hnames name hmem =>
    hmono (h name (List.mem_cons_of_mem _ (List.mem_cons_of_mem _ (hnames name hmem))))
      fun _ _ hagree =>
      hagree.integer (hnames name hmem)
  have hboolean : ∀ names : List String, (∀ name ∈ names, name ∈ numberSettings) → ∀ name ∈ names,
      Option.Rel (Same Datum.toBoolean) (Datum.find? name es) (Datum.find? name es') :=
        fun names hnames name hmem =>
    hmono (h name (List.mem_cons_of_mem _ (List.mem_cons_of_mem _ (hnames name hmem))))
      fun _ _ hagree =>
      hagree.boolean (hnames name hmem)
  have hchoice : ∀ name ∈ ["trailingComma","trailing_comma"],
      Option.Rel (Same (Datum.toChoice commaChoices .notAmongTexts)) (Datum.find? name es)
        (Datum.find? name es') :=
    fun name hmem => hmono (h name (List.mem_append_left numberSettings hmem)) fun _ _ hagree =>
      hagree.choice
  rw [ofConfig_eq_ok,ofConfig_eq_ok,styles_iff,styles_iff,
    gives_congr (hinteger ["printWidth","print_width"] (by decide)),
    gives_congr (hinteger ["tabWidth","tab_width"] (by decide)),
    gives_congr (hboolean ["useTabs","use_tabs"] (by decide)),
      gives_congr (hboolean ["semi"] (by decide)),
    gives_congr (hboolean ["singleQuote","single_quote"] (by decide)),gives_congr hchoice]

end Format.Options

end OperationHooks
