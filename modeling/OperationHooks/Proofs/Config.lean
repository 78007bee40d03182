import Mathlib.Tactic.MkIffOfInductiveProp
import OperationHooks.Config
import OperationHooks.Proofs.Coercion
import OperationHooks.Proofs.Effect
import OperationHooks.Proofs.Format.Lines
/-!
Style options that are read from a file, and what the built-in formatter can do with them: it
formats every text, unless the file asks for tabs of no width.
-/
set_option autoImplicit false

namespace OperationHooks

open Disk Effect Format Reading

namespace Format.Options

variable {entries : List (Datum × Datum)} {o : Options} {extension : String}

@[mk_iff] structure Styles (entries : List (Datum × Datum)) (o : Options) : Prop where
  printWidth :
    Gives entries ["printWidth","print_width"] standard.printWidth Datum.toInteger o.printWidth
  tabWidth : Gives entries ["tabWidth","tab_width"] standard.tabWidth Datum.toInteger o.tabWidth
  useTabs : Gives entries ["useTabs","use_tabs"] standard.useTabs Datum.toBoolean o.useTabs
  semi : Gives entries ["semi"] standard.semi Datum.toBoolean o.semi
  singleQuote :
    Gives entries ["singleQuote","single_quote"] standard.singleQuote Datum.toBoolean o.singleQuote
  trailingComma : Gives entries ["trailingComma","trailing_comma"] standard.trailingComma
    (Datum.toChoice commaChoices .notAmongTexts) o.trailingComma

theorem ofEntries_eq_ok : ofEntries entries = .ok o ↔
    Styles entries o ∧ Gives entries ["parser"] standard.parser Datum.toText o.parser := by
  simp only [styles_iff,← field_eq_ok,ofEntries,map_eq_ok,Prod.exists,both_eq_ok,and_assoc]
  constructor
  · rintro ⟨_,_,_,_,_,_,_,hprint,htab,huse,hsemi,hsingle,hcomma,hparser,rfl⟩
    exact ⟨hprint,htab,huse,hsemi,hsingle,hcomma,hparser⟩
  · rintro ⟨hprint,htab,huse,hsemi,hsingle,hcomma,hparser⟩
    exact ⟨_,_,_,_,_,_,_,hprint,htab,huse,hsemi,hsingle,hcomma,hparser,rfl⟩

theorem styles_concat {value : Datum} : Styles (entries ++ [(.text "parser",value)]) o ↔
    Styles entries o := by
  simp (disch := decide) only [styles_iff,gives_concat]

theorem ofConfig_eq_ok : ofConfig extension entries = .ok o ↔
    Styles entries o ∧ o.parser = parserFor extension := by
  rw [ofConfig,ofEntries_eq_ok,styles_concat,gives_last rfl]

end Format.Options

namespace Config

variable {d : Disk} {path : Option Path} {extension : String} {room : Nat} {o : Options}

theorem styleWithin_eq_ok : styleWithin room d path extension = .ok o ↔
    ∃ found, entries room d path = .ok found ∧ Options.ofConfig extension found = .ok o := by
  unfold styleWithin
  cases entries room d path with
  | error e => simp [bind,Except.bind]
  | ok found =>
    cases hread : Options.ofConfig extension found <;> simp [bind,Except.bind,hread,Except.mapError]

end Config

end OperationHooks
