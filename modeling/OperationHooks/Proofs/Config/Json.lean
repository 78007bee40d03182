import OperationHooks.Proofs.Config.Agreement
import OperationHooks.Proofs.Config.Loading
import OperationHooks.Proofs.Yaml.Tables
/-!
Configurations that are written in JSON. They are read as YAML; where a document is written plainly,
that gives the same options as the table that JSON says the document is.
-/
set_option autoImplicit false

namespace OperationHooks.Json

open Yaml Format Format.Options

section Strings

variable {p p' : Part} {q : Quotation} {c : Char}

theorem Part.char_of_piece (h : p.piece = some c) : p.char = c ∧ ∀ p', joined? p p' = none := by
  cases p with
  | raw c' hraw => exact ⟨Option.some.inj h,fun _ => rfl⟩
  | short mark value hmark => exact ⟨Option.some.inj h,fun _ => rfl⟩
  | unicode digits code hlen hcode =>
    rw [Part.piece] at h
    split at h
    · cases h
    · rename_i hsurrogate
      refine ⟨by rw [Part.char,if_neg hsurrogate]; exact Option.some.inj h,fun p' => ?_⟩
      have hhigh : Part.isHigh code = false := by
        simp only [Part.isHigh,Part.isSurrogate,Bool.and_eq_true,decide_eq_true_eq,
          not_and] at hsurrogate ⊢
        rw [← Bool.not_eq_true]
        simp only [Bool.and_eq_true,decide_eq_true_eq]
        omega
      rw [joined?_unicode,hhigh]
      cases p'.code? <;> rfl

theorem Part.char_of_none (h : p.piece = none) : p.char = '\uFFFD' := by
  cases p with
  | raw c' hraw => cases h
  | short mark value hmark => cases h
  | unicode digits code hlen hcode =>
    rw [Part.piece] at h
    split at h
    · rename_i hsurrogate
      rw [Part.char,if_pos hsurrogate]
    · cases h

theorem far_of_joined (h : joined? p p' = some c) : 0xFFFD ≤ c.toNat := by
  obtain ⟨high,-,hrest⟩ := Option.bind_eq_some_iff.1 h
  obtain ⟨low,-,hpair⟩ := Option.bind_eq_some_iff.1 hrest
  split at hpair
  · rename_i hhalves
    simp only [Part.isHigh,Part.isLow,Bool.and_eq_true,decide_eq_true_eq] at hhalves
    obtain rfl := Option.some.inj hpair
    have hvalid : (0x10000 + (high - 0xD800) * 0x400 + (low - 0xDC00)).isValidChar :=
      .inr (by omega)
    have hcode :
        (Part.pair high low).toNat = 0x10000 + (high - 0xD800) * 0x400 + (low - 0xDC00) := by
      rw [Part.pair,Char.ofNat,dif_pos hvalid]
      rfl
    omega
  · cases hpair

theorem isForeign_of_none (q : Quotation) (h : ∃ p ∈ q, p.piece = none) :
    IsForeign (Quotation.chars q) := by
  induction q using Quotation.chars.induct with
  | case1 =>
    obtain ⟨p,hp,-⟩ := h
    cases hp
  | case2 p =>
    obtain ⟨p',hp,hnone⟩ := h
    obtain rfl := List.mem_singleton.1 hp
    refine ⟨'\uFFFD',?_,by decide⟩
    rw [Quotation.chars,Part.char_of_none hnone]
    exact List.mem_cons_self
  | case3 p p' rest c hjoined ih =>
    refine ⟨c,?_,far_of_joined hjoined⟩
    rw [Quotation.chars,hjoined]
    exact List.mem_cons_self
  | case4 p p' rest hjoined ih =>
    have hchars : Quotation.chars (p :: p' :: rest) = p.char :: Quotation.chars (p' :: rest) := by
      rw [Quotation.chars,hjoined]
    rw [hchars]
    obtain ⟨x,hx,hnone⟩ := h
    rcases List.mem_cons.1 hx with rfl | hx
    · exact ⟨_,List.mem_cons_self,by rw [Part.char_of_none hnone]; decide⟩
    · exact (ih ⟨x,hx,hnone⟩).of_subset fun d hd _ => List.mem_cons_of_mem _ hd

theorem mapM_pieces (q : Quotation) : (Quotation.pieces q).mapM id = some (Quotation.chars q) ∨
    (Quotation.pieces q).mapM id = none ∧ ∃ p ∈ q, p.piece = none := by
  induction q with
  | nil => exact .inl rfl
  | cons p q ih =>
    rw [Quotation.pieces_cons,List.mapM_cons]
    cases hp : p.piece with
    | none => exact .inr ⟨rfl,p,List.mem_cons_self,hp⟩
    | some c =>
      obtain ⟨hchar,hjoined⟩ := Part.char_of_piece hp
      rcases ih with hall | ⟨hnone,x,hx,hpiece⟩
      · rw [hall,chars_cons fun p' _ => hjoined p',hchar]
        exact .inl rfl
      · rw [hnone]
        exact .inr ⟨rfl,x,List.mem_cons_of_mem _ hx,hpiece⟩

theorem Quotation.reading_cases (q : Quotation) : Quotation.reading q = .text (Quotation.value q) ∨
    Quotation.reading q = .brokenText ∧ IsForeign (Quotation.value q).toList := by
  rw [Quotation.reading,Quotation.value]
  rcases mapM_pieces q with h | ⟨h,hnone⟩
  · rw [h]
    exact .inl rfl
  · rw [h,String.toList_ofList]
    exact .inr ⟨rfl,isForeign_of_none q hnone⟩

end Strings

/-- A number that stays one, or something else. -/
def Written.isStrict : Written → Bool
  | .number n => n.isStrict
  | _ => true

def Document.isPlain (w : Document) : Bool :=
  w.before.isPlain && w.value.isPlain && w.after.isPlain && w.value.pairs.all fun part =>
    !numberSettings.contains (Quotation.value part.1.key) || part.2.isStrict

section Settings

variable {w : Written} {d : Datum} {name : String}

theorem Numeral.text_not_choice (n : Numeral) : String.ofList n.text ∉ ["none","es5","all"] := by
  have hwords :
      (["none","es5","all"].all fun word => word.toList.any fun c => !numeralChars.contains c) =
      true := by
    decide
  intro hmem
  obtain ⟨c,hc,hother⟩ := List.any_eq_true.1 (List.all_eq_true.1 hwords _ hmem)
  rw [String.toList_ofList] at hc
  simp [n.mem_text hc] at hother

theorem agrees_datum (h : Resembles d w.reading)
    (hstrict : name ∈ numberSettings → w.isStrict = true) :
    Agrees name d w.datum := by
  cases w with
  | word w =>
    cases w <;> (obtain rfl : d = _ := h; exact .refl ..)
  | number n =>
    rw [Written.reading,Numeral.reading] at h
    rw [Written.datum]
    split at h
    · have hsame : d = n.datum := by
        revert h
        unfold Numeral.datum
        split <;> exact id
      rw [hsame]
      exact .refl ..
    · rename_i hloose
      obtain rfl : d = .text (String.ofList n.text) := h
      refine ⟨.of_none (toChoice_text n.text_not_choice) ?_,
        fun hname => absurd (hstrict hname) hloose,
        fun hname => absurd (hstrict hname) hloose⟩
      intro x hx
      unfold Numeral.datum at hx
      split at hx <;> cases hx
  | quoted q =>
    rw [Written.reading] at h
    rw [Written.datum]
    rcases Quotation.reading_cases q with hq | ⟨hq,hforeign⟩
    · rw [hq] at h
      obtain rfl : d = _ := h
      exact .refl ..
    · rw [hq] at h
      obtain rfl : d = _ := h
      exact setsNothing_brokenText.agrees (setsNothing_of_isForeign hforeign)
  | emptyList gap | list items =>
    obtain ⟨found,rfl⟩ := h
    rw [Written.datum]
    exact (setsNothing_list _).agrees (setsNothing_list _)
  | emptyTable gap | table entries =>
    obtain ⟨found,rfl⟩ := h
    rw [Written.datum]
    exact (setsNothing_table _).agrees (setsNothing_table _)

theorem key_iff {q : Quotation} (h : Resembles d (Quotation.reading q))
    (hname : (name.toList.all fun c => decide (c.toNat < 0xFFFD)) = true) :
    d = .text name ↔ Datum.text (Quotation.value q) = .text name := by
  rcases Quotation.reading_cases q with hq | ⟨hq,hforeign⟩
  · rw [hq] at h
    obtain rfl : d = _ := h
    exact .rfl
  · rw [hq] at h
    obtain rfl : d = _ := h
    refine ⟨nofun,fun heq => ?_⟩
    rw [Datum.text.inj heq] at hforeign
    have hnot : name ∉ [name] := hforeign.not_mem (by simpa using hname)
    exact absurd List.mem_cons_self hnot

theorem find?_plain {document : Document} {taken : List (Datum × Datum)}
    (hplain : document.isPlain = true)
    (h : List.Forall₂ (fun pair part => Resembles pair.1 (Quotation.reading part.1.key) ∧
      Resembles pair.2 part.2.reading) taken document.value.pairs)
    (hname : name ∈ "trailingComma" :: "trailing_comma" :: numberSettings) :
    Option.Rel (Agrees name) (Datum.find? name taken)
      (Datum.find? name (document.value.pairs.map entryOf)) := by
  simp only [Document.isPlain,Bool.and_eq_true] at hplain
  have hplane : (name.toList.all fun c => decide (c.toNat < 0xFFFD)) = true :=
    List.all_eq_true.1
      (by decide : (("trailingComma" :: "trailing_comma" :: numberSettings).all fun name =>
      name.toList.all fun c => decide (c.toNat < 0xFFFD)) = true) name hname
  refine find?_rel
    (List.forall₂_map_right_iff.2 (List.forall₂_iff_zip.2 ⟨h.length_eq,fun {pair part} hmem => ?_⟩))
  obtain ⟨hkey,hvalue⟩ := List.forall₂_zip h hmem
  refine ⟨key_iff hkey hplane,fun heq => agrees_datum hvalue fun hnumber => ?_⟩
  have hstrict := List.all_eq_true.1 hplain.2 part (List.of_mem_zip hmem).2
  rw [Datum.text.inj heq] at hstrict
  simpa [hnumber] using hstrict

theorem isTable_of_datum {found : List (Datum × Datum)} (h : w.datum = .table found) :
    isTable w = true := by
  cases w with
  | emptyTable gap | table entries => rfl
  | word w => cases w <;> cases h
  | number n =>
    rw [Written.datum] at h
    unfold Numeral.datum at h
    split at h <;> cases h
  | quoted q | emptyList gap | list items => rw [Written.datum] at h; cases h

end Settings

end OperationHooks.Json

namespace OperationHooks.Config

open Disk Format Yaml

variable {d : Disk} {p : Path} {extension source : String} {bytes : List UInt8}
  {found : Entries} {room : Nat}

theorem entriesOf_of_table (h : Yaml.read room (sourceOf source) = .ok (.table found)) :
    entriesOf room p source = .ok found := by
  unfold entriesOf
  rw [← sourceOf,h]
  cases found <;> rfl

theorem exists_taken (p : Path) (extension : String) {w : Json.Document}
    (hw : w.text = source.toList)
    (hplain : w.isPlain = true) (hroom : Composer.callsPerCollection * w.value.depth ≤ room)
    (hdatum : w.value.datum = .table found) : ∃ taken, entriesOf room p source = .ok taken ∧
      ∀ o, Options.ofConfig extension taken = .ok o ↔ Options.ofConfig extension found = .ok o := by
  have htable := Json.isTable_of_datum hdatum
  have hparts := hplain
  simp only [Json.Document.isPlain,Bool.and_eq_true] at hparts
  obtain ⟨taken,hread,hpairs⟩ := read_spell hparts.1.1.1 hparts.1.1.2 hparts.1.2 htable hroom
  rw [← Json.plainNewlines_text,hw] at hread
  refine ⟨taken,entriesOf_of_table hread,fun o => Options.ofConfig_congr fun name hname => ?_⟩
  rw [Json.Written.datum_of_isTable htable] at hdatum
  rw [← Datum.table.inj hdatum]
  exact Json.find?_plain hplain hpairs hname

/-- A configuration in JSON is a document of a table. If that is written plainly, and there is room
for the calls that its lists and tables keep open, it gives the options that the table gives, and is
rejected exactly if the table is. -/
theorem json_configures (hread : d.read p = .ok bytes) (hsource : Text.decode bytes = .ok source)
    (hfound : Json.read? source = some (.table found)) :
    (∃ w : Json.Document, w.text = source.toList) ∧ ∀ w : Json.Document, w.text = source.toList →
      w.value.datum = .table found ∧
        (w.isPlain = true → Composer.callsPerCollection * w.value.depth ≤ room →
        (∀ o, styleWithin room d (some p) extension = .ok o ↔
          Options.ofConfig extension found = .ok o) ∧
        ((∃ cause, styleWithin room d (some p) extension = .error (.config cause)) ↔
          ∃ rejections, Options.ofConfig extension found = .error rejections)) := by
  obtain ⟨w₀,hw₀,-⟩ := Json.read?_eq_some_iff.1 hfound
  refine ⟨⟨w₀,hw₀⟩,fun w hw => ?_⟩
  have hdatum : w.value.datum = .table found :=
    Option.some.inj ((Json.read?_eq_some_iff.2 ⟨w,hw,rfl⟩).symm.trans hfound)
  refine ⟨hdatum,fun hplain hroom => ?_⟩
  obtain ⟨taken,htaken,hsame⟩ := exists_taken p extension hw hplain hroom hdatum
  have hentries : entries room d (some p) = .ok taken := by
    rw [read_of_ok hread,Config.read,hread]
    simp only [hsource,htaken]
  have hok : ∀ o, styleWithin room d (some p) extension = .ok o ↔
      Options.ofConfig extension found = .ok o := by
    intro o
    rw [styleWithin_eq_ok,hentries,← hsame]
    constructor
    · rintro ⟨taken',he,ho⟩
      rwa [Except.ok.inj he]
    · exact fun ho => ⟨taken,rfl,ho⟩
  refine ⟨hok,?_⟩
  constructor
  · rintro ⟨cause,hcause⟩
    cases hfails : Options.ofConfig extension found with
    | error rejections => exact ⟨rejections,rfl⟩
    | ok o =>
      rw [(hok o).2 hfails] at hcause
      cases hcause
  · rintro ⟨rejections,hrejections⟩
    cases hfails : Options.ofConfig extension taken with
    | ok o =>
      rw [(hsame o).1 hfails] at hrejections
      cases hrejections
    | error causes => exact ⟨_,styleWithin_eq_error.2 (.inr ⟨taken,causes,hentries,hfails,rfl⟩)⟩

/-- The part of each character that stands for itself. -/
def rawParts (s : String) : Json.Quotation :=
  s.toList.filterMap fun c => if h : Json.isRaw c = true then some (.raw c h) else none

def emptyGap : Json.Gap := ⟨[],rfl⟩

def newline : Json.Gap := ⟨['\n'],rfl⟩

def four : Json.Numeral := ⟨false,['4'],[],none,by decide,by decide,by decide,by decide⟩

def oneSetting (indent : Json.Gap) : Json.Document :=
  ⟨emptyGap,.table (.last ⟨indent,rawParts "tabWidth",emptyGap,⟨[' '],rfl⟩⟩ (.number four) newline),
    newline⟩

def configured (source : String) : Disk :=
  ⟨⟨[([".prettierrc"],.file (Text.encode source) false)]⟩,[]⟩

def fourWide : Options := { Options.standard with tabWidth := 4 }

def spaced : String := "\x7b\n  \"tabWidth\": 4\n\x7d\n"

theorem spaced_configures :
    (configured spaced).read (.ofString ".prettierrc") = .ok (Text.encode spaced) ∧
    Json.read? spaced = some (.table [(.text "tabWidth",.integer 4)]) ∧
    (oneSetting ⟨['\n',' ',' '],rfl⟩).isPlain = true ∧
    Composer.callsPerCollection * (oneSetting ⟨['\n',' ',' '],rfl⟩).value.depth ≤ usualRoom ∧
    styleOptions (configured spaced) (some (.ofString ".prettierrc")) "ts" = .ok fourWide := by
  have hread :
      (configured spaced).read (.ofString ".prettierrc") = .ok (Text.encode spaced) := by decide
  have htext : (oneSetting ⟨['\n',' ',' '],rfl⟩).text = spaced.toList := by decide
  have hfound : Json.read? spaced = some (.table [(.text "tabWidth",.integer 4)]) :=
    Json.read?_eq_some_iff.2 ⟨_,htext,rfl⟩
  have hplain : (oneSetting ⟨['\n',' ',' '],rfl⟩).isPlain = true := by decide
  have hroom :
      Composer.callsPerCollection * (oneSetting ⟨['\n',' ',' '],rfl⟩).value.depth ≤ usualRoom := by
    decide
  refine ⟨hread,hfound,hplain,hroom,?_⟩
  exact (((json_configures hread (by decide) hfound).2 _ htext).2 hplain hroom).1 fourWide |>.2 rfl

def tabbed : String := "\x7b\n\t\"tabWidth\": 4\n\x7d\n"

/-- With a tabulator there it says the same, and is refused. -/
theorem tabbed_refused : ¬ ∀ (d : Disk) (p : Path) (extension source : String) (bytes : List UInt8)
    (found : Entries),
    d.read p = .ok bytes → Text.decode bytes = .ok source →
      Json.read? source = some (.table found) →
      (∀ o, styleOptions d (some p) extension = .ok o ↔ Options.ofConfig extension found = .ok o) ∧
      ((∃ cause, styleOptions d (some p) extension = .error (.config cause)) ↔
        ∃ rejections, Options.ofConfig extension found = .error rejections) := by
  intro hall
  have hread :
      (configured tabbed).read (.ofString ".prettierrc") = .ok (Text.encode tabbed) := by decide
  have htext : (oneSetting ⟨['\n','\t'],rfl⟩).text = tabbed.toList := by decide
  have hfound : Json.read? tabbed = some (.table [(.text "tabWidth",.integer 4)]) :=
    Json.read?_eq_some_iff.2 ⟨_,htext,rfl⟩
  have hok :
      styleOptions (configured tabbed) (some (.ofString ".prettierrc")) "ts" = .ok fourWide :=
    (hall _ _ "ts" _ _ _ hread (by decide) hfound).1 fourWide |>.2 rfl
  have hrefused :
      (styleOptions (configured tabbed) (some (.ofString ".prettierrc")) "ts").isOk = false := by
    decide +kernel
  rw [hok] at hrefused
  cases hrefused

end OperationHooks.Config
