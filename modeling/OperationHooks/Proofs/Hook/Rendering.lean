import OperationHooks.Proofs.Hook
import OperationHooks.Proofs.Template.Slots

set_option autoImplicit false

namespace OperationHooks

open Template

namespace GraphQL

theorem of_isNamePart {P : Char → Prop} (h : ∀ n : Fin 128, P (Char.ofNat n)) {c : Char}
    (hc : isNamePart c = true) : P c := by
  have hrange := toNat_of_isNamePart hc
  have hp := h ⟨c.toNat,by omega⟩
  rwa [Char.ofNat_toNat] at hp

theorem isNamePart_of_lowerChar {c c' : Char} (h : isNamePart c = true)
    (hc : c' ∈ Text.lowerChar c) :
    isNamePart c' = true := by
  have hall : isNamePart c = true → (Text.lowerChar c).all isNamePart = true :=
    of_isNamePart (P := fun c => isNamePart c = true → (Text.lowerChar c).all isNamePart =
      true) (by decide) h
  exact List.all_eq_true.1 (hall h) c' hc

theorem Name.isNamePart_of_lowerFirst (n : Name) {c : Char}
    (hc : c ∈ (Text.lowerFirst n.text).toList) :
    isNamePart c = true := by
  rw [Text.lowerFirst,String.toList_ofList] at hc
  cases hn : n.text.toList with
  | nil => rw [hn] at hc; cases hc
  | cons first rest =>
    have hpart : ∀ c ∈ first :: rest, isNamePart c = true :=
      fun c hc => n.isNamePart_of_mem (hn ▸ hc)
    rw [hn,Text.lowerFirstChars,List.mem_append] at hc
    rcases hc with hc | hc
    · exact isNamePart_of_lowerChar (hpart first List.mem_cons_self) hc
    · exact hpart c (List.mem_cons_of_mem _ hc)

end GraphQL

structure Descriptor.IsNamedOperation (d : Descriptor) : Prop where
  named : ∃ n : GraphQL.Name, d.name = some n.text
  kind : d.kind = .query ∨ d.kind = .mutation
  selection : ∀ c ∈ (Text.lowerFirst d.selectionName).toList, Text.isLineEnd c = false

namespace Descriptor

theorem IsNamedOperation.isNamed {d : Descriptor} (h : d.IsNamedOperation) : d.IsNamed := by
  obtain ⟨n,hn⟩ := h.named
  intro text htext c hc
  obtain rfl := Option.some.inj (hn.symm.trans htext)
  exact n.isNamePart_of_mem hc

theorem chooseSelection_mem (policy : SelectionPolicy) (operation : Option String)
    (fields : List String) :
    fields = [] ∧ chooseSelection policy operation fields = "" ∨
      chooseSelection policy operation fields ∈ fields := by
  have hhead : ∀ matching : Option String, (∀ field ∈ matching, field ∈ fields) →
      fields = [] ∧ (matching <|> fields.head?).getD "" = "" ∨
        (matching <|> fields.head?).getD "" ∈ fields := by
    intro matching hm
    cases matching with
    | some field => exact .inr (hm field rfl)
    | none =>
      cases fields with
      | nil => exact .inl ⟨rfl,rfl⟩
      | cons field rest => exact .inr List.mem_cons_self
  unfold chooseSelection
  refine hhead _ fun field hf => ?_
  split at hf
  · exact List.mem_of_find?_eq_some hf
  · cases hf

theorem isNamedOperation_of_ofFile {policy : SelectionPolicy} {disk : Disk}
    {path : Path} {d : Descriptor}
    (h : ofFile policy disk path = .ok d) (hd : Hook.Settings.Hookable d) : d.IsNamedOperation := by
  obtain ⟨document,rfl⟩ := ofFile_eq_ok h
  obtain ⟨⟨name,hname⟩,hkind⟩ := hd
  unfold ofDocument at hname hkind ⊢
  split at hname
  · rename_i o hfirst
    obtain ⟨n,-,rfl⟩ := Option.map_eq_some_iff.1 hname
    rw [hfirst] at hkind
    refine ⟨⟨n,hname⟩,hkind,fun c hc => ?_⟩
    change c ∈
      (Text.lowerFirst (chooseSelection policy _ ((GraphQL.fieldNames o.selections).map _))).toList
      at hc
    rcases chooseSelection_mem policy _ ((GraphQL.fieldNames o.selections).map (·.text)) with
      ⟨-,he⟩ | hm
    · rw [he] at hc; cases hc
    · obtain ⟨field,-,he⟩ := List.mem_map.1 hm
      rw [← he] at hc
      exact GraphQL.isLineEnd_of_isNamePart (field.isNamePart_of_lowerFirst hc)
  · cases hname

end Descriptor

namespace Hook.Settings

def slotText (name selection slot : String) : List Char :=
  if slot = "operation_name" then name.toList else (Text.lowerFirst selection).toList

end Hook.Settings

def Variant.builtIn : Variant → Template
  | .queryPlain => BuiltIn.queryPlain
  | .queryWithVariables => BuiltIn.queryWithVariables
  | .mutationPlain => BuiltIn.mutationPlain
  | .mutationWithVariables => BuiltIn.mutationWithVariables

def Variant.kind : Variant → Kind
  | .queryPlain | .queryWithVariables => .query
  | .mutationPlain | .mutationWithVariables => .mutation

theorem Variant.kind_of_select {kind : Kind} {hasVariables : Bool} {v : Variant}
    (h : select? kind hasVariables = some v) : v.kind = kind := by
  cases kind <;> cases hasVariables <;> cases h <;> rfl

theorem Variant.isPlain_builtIn (v : Variant) :
    v.builtIn.all Node.isPlain = true := by cases v <;> rfl

theorem Variant.slots_builtIn (v : Variant) {name : String} (h : name ∈ slots (symbols v.builtIn)) :
    name = "operation_name" ∨ name = "selection_name" := by
  have hall :
      ((v.builtIn).filterMap Node.slot?).all ["operation_name","selection_name"].contains =
      true := by
    cases v <;> decide
  rw [slots_symbols] at h
  simpa using List.all_eq_true.1 hall name h

theorem Variant.nameParts_template (v : Variant) : nameParts? v.template = some [v.template] := by
  cases v <;> decide

theorem Variant.lookup_builtIn (v : Variant) :
    BuiltIn.all.lookup ("/".intercalate [v.template]) = some v.builtIn := by cases v <;> rfl

namespace Hook.Settings

variable {s : Settings} {d : Descriptor}

/-- A template directory, if there is one, has no template of its own for a shape. -/
def FromPackage (s : Settings) (disk : Disk) (v : Variant) : Prop :=
  ∀ directory, s.templates = some directory →
    ∃ fault, disk.read (directory.join ⟨.here,[v.template]⟩) = .error fault

theorem fromPackage_of_none (ht : s.templates = none) (disk : Disk) (v : Variant) :
    s.FromPackage disk v :=
  fun directory hd => by rw [ht] at hd; cases hd

theorem load_fromPackage {disk : Disk} {v : Variant} (h : s.FromPackage disk v) :
    load s.templates disk v.template = .ok (some v.builtIn) := by
  unfold load
  simp only [v.nameParts_template,v.lookup_builtIn]
  cases ht : s.templates with
  | none => rfl
  | some directory =>
    obtain ⟨fault,hread⟩ := h directory ht
    simp only [ofFile,hread]
    rfl

theorem content_fromPackage {disk : Disk} {v : Variant} (h : s.FromPackage disk v)
    (name selection : String) :
    s.content disk v name selection =
      .ok (.ofChars (fill (slotText name selection) (symbols v.builtIn))) := by
  have hsupplies : Supplies (slotValues name selection) (slotText name selection) v.builtIn := by
    intro slot hslot
    rw [slotValues,Text.Wide.ofString_eq,Text.Wide.ofString_eq]
    rcases v.slots_builtIn hslot with rfl | rfl <;> rfl
  unfold content
  simp only [load_fromPackage h,bind,Except.bind]
  exact render_plain v.isPlain_builtIn hsupplies _ _

/-- A definition that can be written down has a shape, a name, and a module. -/
theorem render_builtIn (ht : s.templates = none) (h : d.IsNamedOperation) :
    ∃ (v : Variant) (n : GraphQL.Name), Variant.select? d.kind d.hasVariables = some v ∧
      d.name = some n.text ∧
      ∀ disk, s.render disk (Variant.select? d.kind d.hasVariables) d =
        .ok ⟨s.outputPath d,
          String.ofList (fill (slotText n.text d.selectionName) (symbols v.builtIn))⟩ := by
  obtain ⟨n,hname⟩ := h.named
  have hshape : ∃ v, Variant.select? d.kind d.hasVariables = some v := by
    rcases h.kind with hk | hk <;> rw [hk] <;> cases d.hasVariables <;> exact ⟨_,rfl⟩
  obtain ⟨v,hv⟩ := hshape
  have hproper : d.properName? = some n.text := by
    have hne : n.text ≠ "" := fun he => n.chars_ne_nil (by simpa [GraphQL.Name.text] using he)
    simp [Descriptor.properName?,hname,Option.filter,hne]
  refine ⟨v,n,hv,hname,fun disk => render_eq_ok.2 ?_⟩
  simp only [draft,hv,hproper,content_fromPackage (fromPackage_of_none ht disk v),
    Text.Wide.ofString_ofList]

theorem isLineEnd_of_mem_slotText {n : GraphQL.Name} {selection : String}
    (hs : ∀ c ∈ (Text.lowerFirst selection).toList, Text.isLineEnd c = false) (slot : String) :
    ∀ c ∈ slotText n.text selection slot, Text.isLineEnd c = false := by
  intro c hc
  unfold slotText at hc
  split at hc
  · exact GraphQL.isLineEnd_of_isNamePart (n.isNamePart_of_mem hc)
  · exact hs c hc

/-- What the lines of a hook say, told by its template. -/
theorem said_builtIn {ps : List Phrase} {v : Variant} {n : GraphQL.Name} {selection : String}
    (hlined : isLined ps ["operation_name"] (symbols v.builtIn) = true)
    (hstops : ∀ p ∈ ps, GraphQL.isNamePart p.stop = false)
    (hs : ∀ c ∈ (Text.lowerFirst selection).toList, Text.isLineEnd c = false) :
    said ps (String.ofList (fill (slotText n.text selection) (symbols v.builtIn))) =
      (openSaid ps (symbols v.builtIn)).map (String.ofList ∘ fill (slotText n.text selection)) := by
  refine said_fill hlined (fun slot _ => isLineEnd_of_mem_slotText hs slot)
    fun p hp slot hslot hc => ?_
  obtain rfl := List.mem_singleton.1 hslot
  have hpart := n.isNamePart_of_mem (show p.stop ∈ n.text.toList from hc)
  rw [hstops p hp] at hpart
  cases hpart

def packaged : Settings where
  namePrefix := standardPrefix
  extension := Extension.ts.text
  destination := standardDestination
  outputRoot := none
  skipsMismatch := true
  templates := none
  formatting := Format.Formatter.format [] .standard [.basic]
  formattingBroken := Format.Formatter.formatBroken [] .standard [.basic]

end Hook.Settings

def queryCalled (name : GraphQL.Name) (path : Path) : Descriptor where
  sourcePath := path
  kind := .query
  name := some name.text
  hasVariables := false
  selectionName := "a"

theorem isNamedOperation_queryCalled (name : GraphQL.Name) (path : Path) :
    (queryCalled name path).IsNamedOperation where
  named := ⟨name,rfl⟩
  kind := .inl rfl
  selection := by
    have hall : (Text.lowerFirst "a").toList.all (fun c => !Text.isLineEnd c) = true := by decide
    intro c hc
    simpa using List.all_eq_true.1 hall c hc

end OperationHooks
