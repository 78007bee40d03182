import OperationHooks.Proofs.Descriptor
import OperationHooks.Proofs.Hook.Rendering
/-!
What a hook from the package says of the field that its operation selects. This is the name of a
field that the first definition of the document selects directly, its first letter in lower case, or
nothing if there is none.
-/
set_option autoImplicit false

namespace OperationHooks
open Template

namespace GraphQL

def Definition.Selects (x : Definition) (field : Name) : Prop :=
  ∃ o label inner, x = .operation o ∧ .field label field inner ∈ o.selections

theorem Definition.mem_fields {x : Definition} {text : String} :
    text ∈ x.fields ↔ ∃ field, x.Selects field ∧ field.text = text := by
  cases x with
  | operation o =>
    simp only [fields,fieldNames,List.mem_map,List.mem_filterMap,Selects]
    constructor
    · rintro ⟨field,⟨selection,hs,hf⟩,rfl⟩
      cases selection with
      | field label name inner => cases hf; exact ⟨_,⟨o,label,inner,rfl,hs⟩,rfl⟩
      | spread fragment => cases hf
      | inline condition inner => cases hf
    · rintro ⟨field,⟨o',label,inner,ho,hs⟩,rfl⟩
      cases ho
      exact ⟨field,⟨_,hs,rfl⟩,rfl⟩
  | fragment name condition selections => simp [fields,Selects]
  | typeSystem => simp [fields,Selects]

theorem Definition.fields_eq_nil_iff {x : Definition} :
    x.fields = [] ↔ ∀ field, ¬ x.Selects field := by
  rw [List.eq_nil_iff_forall_not_mem]
  refine ⟨fun h field hf => h _ (mem_fields.2 ⟨field,hf,rfl⟩),fun h text ht => ?_⟩
  obtain ⟨field,hf,-⟩ := mem_fields.1 ht
  exact h field hf

theorem Name.exists_lowerFirst (n : Name) :
    ∃ c rest, Text.lowerFirst n.text = String.ofList (c :: rest) ∧ Text.lowerChar c = [c] := by
  obtain ⟨c,rest,hn⟩ := List.exists_cons_of_ne_nil n.chars_ne_nil
  have hpart : isNamePart c = true := n.isNamePart_of_mem (by simp [text,hn])
  obtain ⟨hlower,hagain⟩ : Text.lowerChar c = [c.toLower] ∧
    Text.lowerChar c.toLower = [c.toLower] :=
    of_isNamePart (P := fun c => Text.lowerChar c = [c.toLower] ∧
      Text.lowerChar c.toLower = [c.toLower])
      (by decide) hpart
  refine ⟨c.toLower,rest,?_,hagain⟩
  simp [Text.lowerFirst,text,hn,Text.lowerFirstChars,hlower]

theorem Name.lowerFirst_ne (n : Name) : Text.lowerFirst n.text ≠ "" := by
  obtain ⟨c,rest,h,-⟩ := n.exists_lowerFirst
  rw [h]
  simp

theorem Name.lowerFirst_lowerFirst (n : Name) :
    Text.lowerFirst (Text.lowerFirst n.text) = Text.lowerFirst n.text := by
  obtain ⟨c,rest,h,hc⟩ := n.exists_lowerFirst
  rw [h]
  simp [Text.lowerFirst,Text.lowerFirstChars,hc]

end GraphQL

def Variant.givenValues (operation selection : String) : Template.Variables :=
  [("operation_name",.text (.ofString operation)),("selection_name",.text (.ofString selection))]

def Variant.Fills (v : Variant) (content operation selection : String) : Prop :=
  ∀ load, Template.render load (givenValues operation selection) v.template v.builtIn =
    .ok (.ofString content)

namespace Variant

variable {v : Variant} {content operation selection : String}

/-- What the slots of a template are filled with when the selection is put in as it is. -/
def given (operation selection slot : String) : List Char :=
  if slot = "operation_name" then operation.toList else selection.toList

def filled (v : Variant) (operation selection : String) : String :=
  String.ofList (fill (given operation selection) (symbols v.builtIn))

theorem fills_iff : v.Fills content operation selection ↔
    content = v.filled operation selection := by
  have hsupplies :
      Supplies (givenValues operation selection) (given operation selection) v.builtIn := by
    intro slot hslot
    rw [givenValues,Text.Wide.ofString_eq,Text.Wide.ofString_eq]
    rcases v.slots_builtIn hslot with rfl | rfl <;> rfl
  have hrender : ∀ load,
      Template.render load (givenValues operation selection) v.template v.builtIn =
        .ok (.ofString (v.filled operation selection)) := fun load => by
    rw [render_plain v.isPlain_builtIn hsupplies load _,filled,Text.Wide.ofString_ofList]
  unfold Fills
  simp only [hrender,Except.ok.injEq,Text.Wide.ofString_inj]
  exact ⟨fun h => (h fun _ => .ok none).symm,fun h _ => h.symm⟩

theorem selection_mem_slots (hv : v ≠ .queryPlain) :
    "selection_name" ∈ slots (symbols v.builtIn) := by
  rw [slots_symbols]
  cases v with
  | queryPlain => exact absurd rfl hv
  | queryWithVariables | mutationPlain | mutationWithVariables => decide

/-- All shapes but one tell what was put in for the selection. -/
theorem fills_unique (hv : v ≠ .queryPlain)
    (h : v.Fills content operation selection) (text : String) :
    v.Fills content operation text ↔ text = selection := by
  refine ⟨fun h' => ?_,fun he => he ▸ h⟩
  have hsame := String.ofList_injective ((fills_iff.1 h').symm.trans (fills_iff.1 h))
  have hother : ∀ slot ∈ slots (symbols v.builtIn), slot ≠ "selection_name" →
      given operation text slot = given operation selection slot := fun slot hslot hne => by
    rw [(v.slots_builtIn hslot).resolve_right hne]
    rfl
  exact String.toList_injective (eq_of_fill hother (selection_mem_slots hv) hsame)

end Variant

namespace Descriptor
open GraphQL

variable {policy : SelectionPolicy} {path : Path} {document : Document}
  {o : Operation} {name : Name}

theorem exists_name_of_properName {text : String}
    (h : (ofDocument policy path document).properName? = some text) :
    ∃ o name, document.first = .operation o ∧ operationName? document.definitions = some name ∧
      text = name.text := by
  have hname := (Option.filter_eq_some_iff.1 h).1
  unfold ofDocument at hname
  split at hname
  · rename_i o ho
    obtain ⟨name,hfound,rfl⟩ := Option.map_eq_some_iff.1 hname
    exact ⟨o,name,ho,hfound,rfl⟩
  · cases hname

theorem selectionName_ofDocument (ho : document.first = .operation o)
    (hname : operationName? document.definitions = some name) :
    (ofDocument policy path document).selectionName =
      chooseSelection policy (some name.text) document.first.fields := by
  unfold ofDocument
  rw [ho,hname]
  rfl

end Descriptor

structure Selecting (policy : SelectionPolicy) (document : GraphQL.Document) (v : Variant)
    (name : GraphQL.Name) (content selection : String) : Prop where
  named : Descriptor.operationName? document.definitions = some name
  filled : ∀ text, v.Fills content name.text text ↔ text = selection
  empty_iff : selection = "" ↔ ∀ field, ¬ document.first.Selects field
  ofField : selection ≠ "" → ∃ field, document.first.Selects field ∧
  selection = Text.lowerFirst field.text
  matching : policy = .matchOperation → ∀ field, document.first.Selects field →
    field.text = Text.lowerFirst name.text → selection = Text.lowerFirst name.text

section Choosing
open Descriptor GraphQL

variable {policy : SelectionPolicy} {x : Definition} {name : Name}

theorem lowerFirst_chooseSelection (policy : SelectionPolicy) (operation : Option String)
    (x : Definition) :
    x.fields = [] ∧ Text.lowerFirst (chooseSelection policy operation x.fields) = "" ∨
      ∃ field, x.Selects field ∧
        Text.lowerFirst (chooseSelection policy operation x.fields) =
          Text.lowerFirst field.text := by
  rcases chooseSelection_mem policy operation x.fields with ⟨hnil,he⟩ | hm
  · exact .inl ⟨hnil,by rw [he]; rfl⟩
  · obtain ⟨field,hfield,htext⟩ := Definition.mem_fields.1 hm
    exact .inr ⟨field,hfield,by rw [htext]⟩

theorem lowerFirst_chooseSelection_eq_empty_iff {operation : Option String} :
    Text.lowerFirst (chooseSelection policy operation x.fields) = "" ↔
    ∀ field, ¬ x.Selects field := by
  rw [← Definition.fields_eq_nil_iff]
  rcases lowerFirst_chooseSelection policy operation x with ⟨hnil,he⟩ | ⟨field,hfield,he⟩
  · exact iff_of_true he hnil
  · have hne : x.fields ≠ [] := List.ne_nil_of_mem (Definition.mem_fields.2 ⟨field,hfield,rfl⟩)
    exact iff_of_false (he ▸ field.lowerFirst_ne) hne

theorem lowerFirst_chooseSelection_matchOperation {field : Name} (hf : x.Selects field)
    (he : field.text = Text.lowerFirst name.text) :
    Text.lowerFirst (chooseSelection .matchOperation (some name.text) x.fields) =
      Text.lowerFirst name.text := by
  have hmem : Text.lowerFirst name.text ∈ x.fields := Definition.mem_fields.2 ⟨field,hf,he⟩
  rw [chooseSelection_matchOperation,if_pos hmem,name.lowerFirst_lowerFirst]

end Choosing

namespace Hook.Settings

variable {s : Settings} {d : Descriptor} {disk : Disk} {v : Variant} {m : Module}
variable {policy : SelectionPolicy} {path : Path} {document : GraphQL.Document}

theorem fills_render (h : s.render disk (some v) d = .ok m) (hp : s.FromPackage disk v) :
    ∃ name, d.properName? = some name ∧
    v.Fills m.content name (Text.lowerFirst d.selectionName) := by
  obtain ⟨name,hname⟩ := Option.isSome_iff_exists.1 (path_of_render h).2.2
  refine ⟨name,hname,Variant.fills_iff.2 ?_⟩
  have hdraft := render_eq_ok.1 h
  simp only [draft,hname,content_fromPackage hp,← Text.Wide.ofString_ofList] at hdraft
  have hcontent := congrArg Draft.content (Except.ok.inj hdraft)
  exact (Text.Wide.ofString_inj.1 hcontent).symm

/-- A hook from the package tells a selection, unless it is for a query without variables. -/
theorem exists_selecting (h : s.render disk (some v) (.ofDocument policy path document) = .ok m)
    (hp : s.FromPackage disk v) (hv : v ≠ .queryPlain) :
    ∃ name selection, Selecting policy document v name m.content selection := by
  obtain ⟨text,hproper,hfills⟩ := fills_render h hp
  obtain ⟨o,name,ho,hname,rfl⟩ := Descriptor.exists_name_of_properName hproper
  rw [Descriptor.selectionName_ofDocument ho hname] at hfills
  refine ⟨name,_,hname,Variant.fills_unique hv hfills,lowerFirst_chooseSelection_eq_empty_iff,
    fun hne => ?_,?_⟩
  · rcases lowerFirst_chooseSelection policy (some name.text) document.first with ⟨-,he⟩ | hfield
    · exact absurd he hne
    · exact hfield
  · rintro rfl field hfield he
    exact lowerFirst_chooseSelection_matchOperation hfield he

end Hook.Settings

end OperationHooks
