import Mathlib
import OperationHooks.Definition
/-!
Which definitions of a document have a say in its descriptor. Kind and variables are those of the
first one alone; an operation without a name is given that of the first one behind it that has one.
-/
set_option autoImplicit false

namespace OperationHooks

namespace GraphQL

theorem Name.text_injective {a b : Name} (h : a.text = b.text) : a = b := by
  cases a
  cases b
  obtain rfl := String.ofList_injective h
  rfl

namespace Definition

def operationName? : Definition → Option Name
  | .operation o => o.name
  | _ => none

/-- The fields that an operation selects directly. -/
def fields : Definition → List String
  | .operation o => (fieldNames o.selections).map (·.text)
  | _ => []

def IsAnonymous (x : Definition) : Prop := ∃ o, x = .operation o ∧ o.name = none

end Definition

end GraphQL

namespace Descriptor
open GraphQL

variable {policy : SelectionPolicy} {path path' : Path} {source source' : String}
variable {document document' : Document} {o : Operation} {name : String} {fields : List String}

theorem operationName?_cons (first : Definition) (rest : List Definition) :
    operationName? (first :: rest) = first.operationName?.or (operationName? rest) := by
  unfold operationName?
  rw [List.findSome?_cons]
  cases first with
  | operation o =>
    cases hn : o.name <;> simp [Definition.operationName?,hn]
  | _ => rfl

theorem operationName?_eq_none {definitions : List Definition} :
    operationName? definitions = none ↔ ∀ x ∈ definitions, x.operationName? = none := by
  induction definitions with
  | nil => simp [operationName?]
  | cons first rest ih => rw [operationName?_cons,Option.or_eq_none_iff,ih,List.forall_mem_cons]

theorem chooseSelection_none (policy : SelectionPolicy) (fields : List String) :
    chooseSelection policy none fields = fields.head?.getD "" := by
  cases policy <;> rfl

theorem chooseSelection_first (operation : Option String) (fields : List String) :
    chooseSelection .first operation fields = fields.head?.getD "" := by
  cases operation <;> rfl

theorem chooseSelection_matchOperation (name : String) (fields : List String) :
    chooseSelection .matchOperation (some name) fields =
      if Text.lowerFirst name ∈ fields then Text.lowerFirst name else fields.head?.getD "" := by
  unfold chooseSelection
  by_cases hm : Text.lowerFirst name ∈ fields
  · have hfound : (fields.find? (· == Text.lowerFirst name)) = some (Text.lowerFirst name) := by
      obtain ⟨found,hf⟩ := Option.isSome_iff_exists.1
        (List.find?_isSome (p := (· == Text.lowerFirst name)).2
        ⟨_,hm,beq_self_eq_true _⟩)
      rw [hf,← eq_of_beq (List.find?_some (p := (· == Text.lowerFirst name)) hf)]
    rw [if_pos hm]
    simp only [hfound]
    rfl
  · have hnone : (fields.find? (· == Text.lowerFirst name)) = none :=
      List.find?_eq_none.2 fun x hx he => hm (eq_of_beq he ▸ hx)
    rw [if_neg hm]
    simp only [hnone]
    rfl

theorem chooseSelection_eq_none_iff :
    chooseSelection policy (some name) fields = chooseSelection policy none fields ↔
      (policy = .matchOperation → Text.lowerFirst name ∈ fields →
        fields.head? = some (Text.lowerFirst name)) := by
  rw [chooseSelection_none]
  cases policy with
  | first => simp [chooseSelection_first]
  | matchOperation =>
    rw [chooseSelection_matchOperation]
    by_cases hm : Text.lowerFirst name ∈ fields
    · obtain ⟨first,rest,rfl⟩ := List.exists_cons_of_ne_nil (List.ne_nil_of_mem hm)
      simp [hm,eq_comm]
    · simp [hm]

/-- What the first definition of a document says on its own. -/
def ofFirst (policy : SelectionPolicy) (path : Path) (document : Document) : Descriptor :=
  ofDocument policy path ⟨document.first,[]⟩

theorem kinds_agree (hfirst : document.first = document'.first) :
    (ofDocument policy path document).kind = (ofDocument policy path' document').kind := by
  unfold ofDocument
  rw [hfirst]
  cases document'.first <;> rfl

theorem variables_agree (hfirst : document.first = document'.first) :
    (ofDocument policy path document).hasVariables =
      (ofDocument policy path' document').hasVariables := by
  unfold ofDocument
  rw [hfirst]
  cases document'.first <;> rfl

theorem ofDocument_of_operation (ho : document.first = .operation o) :
    ofDocument policy path document =
    let name := (o.name.or (operationName? document.rest)).map (·.text)
    ⟨path,.ofOperation o.type,name,!o.variableNames.isEmpty,
      chooseSelection policy name document.first.fields⟩ := by
  unfold ofDocument Document.definitions
  rw [operationName?_cons,ho]
  rfl

theorem ofDocument_of_not_anonymous (h : ¬ document.first.IsAnonymous) :
    ofDocument policy path document = ofFirst policy path document := by
  unfold ofFirst
  cases hfirst : document.first with
  | operation o =>
    obtain ⟨name,hn⟩ : ∃ name, o.name = some name :=
      Option.ne_none_iff_exists'.1 fun hn => h ⟨o,hfirst,hn⟩
    rw [ofDocument_of_operation hfirst,ofDocument_of_operation rfl,hn,hfirst]
    rfl
  | _ => unfold ofDocument; rw [hfirst]

theorem ofDocument_of_anonymous (h : document.first.IsAnonymous) :
    (ofDocument policy path document).name = (operationName? document.rest).map (·.text) ∧
    (ofDocument policy path document).selectionName =
      chooseSelection policy ((operationName? document.rest).map (·.text))
        document.first.fields := by
  obtain ⟨o,ho,hn⟩ := h
  rw [ofDocument_of_operation ho,hn]
  exact ⟨rfl,rfl⟩

theorem name_ofFirst (policy : SelectionPolicy) (path : Path) (document : Document) :
    (ofFirst policy path document).name = document.first.operationName?.map (·.text) := by
  unfold ofFirst
  cases hfirst : document.first with
  | operation o =>
    rw [ofDocument_of_operation rfl]
    show (o.name.or (operationName? [])).map _ = o.name.map _
    rw [show operationName? [] = none from rfl,Option.or_none]
  | _ => rfl

theorem selectionName_of_anonymous (h : document.first.IsAnonymous) :
    (ofFirst policy path document).selectionName =
      chooseSelection policy none document.first.fields :=
  (@ofDocument_of_anonymous policy path ⟨document.first,[]⟩ h).2

theorem name_eq_iff : (ofDocument policy path document).name = (ofFirst policy path document).name ↔
    (document.first.IsAnonymous → ∀ later ∈ document.rest, later.operationName? = none) := by
  by_cases h : document.first.IsAnonymous
  · rw [(ofDocument_of_anonymous h).1,name_ofFirst]
    obtain ⟨o,ho,hn⟩ := id h
    rw [ho,show (Definition.operation o).operationName? = none from hn,Option.map_none,
      Option.map_eq_none_iff,
      operationName?_eq_none]
    exact ⟨fun hr _ => hr,fun hr => hr ⟨o,rfl,hn⟩⟩
  · rw [ofDocument_of_not_anonymous h]
    exact ⟨fun _ ha => absurd ha h,fun _ => rfl⟩

theorem selectionName_eq_iff :
    (ofDocument policy path document).selectionName = (ofFirst policy path document).selectionName ↔
      (document.first.IsAnonymous → policy = .matchOperation → ∀ name,
        operationName? document.rest = some name →
        Text.lowerFirst name.text ∈ document.first.fields →
        document.first.fields.head? = some (Text.lowerFirst name.text)) := by
  by_cases h : document.first.IsAnonymous
  · rw [(ofDocument_of_anonymous h).2,selectionName_of_anonymous h]
    cases hn : operationName? document.rest with
    | none => exact ⟨fun _ _ _ _ hname => (nomatch hname),fun _ => rfl⟩
    | some name =>
      rw [Option.map_some,chooseSelection_eq_none_iff]
      refine ⟨fun hs _ hp other ho => ?_,fun hs hp => hs h hp name rfl⟩
      obtain rfl := Option.some.inj ho
      exact hs hp
  · rw [ofDocument_of_not_anonymous h]
    exact ⟨fun _ ha => absurd ha h,fun _ => rfl⟩

/-- Two documents with the same first definition have one name exactly if that definition is no
operation without a name, or the first names behind it are the same. -/
theorem names_agree_iff (hfirst : document.first = document'.first) :
    (ofDocument policy path document).name = (ofDocument policy path' document').name ↔
      (document.first.IsAnonymous → operationName? document.rest =
        operationName? document'.rest) := by
  by_cases h : document.first.IsAnonymous
  · rw [(ofDocument_of_anonymous h).1,(ofDocument_of_anonymous (hfirst ▸ h)).1]
    refine ⟨fun he _ => ?_,fun he => by rw [he h]⟩
    exact Option.map_injective (fun _ _ => Name.text_injective) he
  · rw [ofDocument_of_not_anonymous h,ofDocument_of_not_anonymous (hfirst ▸ h),name_ofFirst,
      name_ofFirst,hfirst]
    exact ⟨fun _ ha => absurd (hfirst ▸ ha) h,fun _ => rfl⟩

theorem selectionNames_agree (hfirst : document.first = document'.first)
    (h : policy = .first ∨ (ofDocument policy path document).name =
      (ofDocument policy path' document').name) :
    (ofDocument policy path document).selectionName =
      (ofDocument policy path' document').selectionName := by
  by_cases ha : document.first.IsAnonymous
  · rw [(ofDocument_of_anonymous ha).1,(ofDocument_of_anonymous (hfirst ▸ ha)).1] at h
    rw [(ofDocument_of_anonymous ha).2,(ofDocument_of_anonymous (hfirst ▸ ha)).2,hfirst]
    rcases h with rfl | h
    · rw [chooseSelection_first,chooseSelection_first]
    · rw [h]
  · rw [ofDocument_of_not_anonymous ha,ofDocument_of_not_anonymous (hfirst ▸ ha),
      ofFirst,ofFirst,hfirst]
    unfold ofDocument
    cases document'.first <;> rfl

/-- Descriptors of documents with the same first definition agree in kind and variables, and in name
and selection as far as that definition has a name or the ones behind it have none to give. -/
theorem descriptors_agree (h : parse source = .ok document) (h' : parse source' = .ok document')
    (hfirst : document.first = document'.first) (policy : SelectionPolicy) (path path' : Path) :
    ∃ d d', ofSource policy path source = .ok d ∧ ofSource policy path' source' = .ok d' ∧
      d.kind = d'.kind ∧ d.hasVariables = d'.hasVariables ∧
      (d.name = d'.name ↔
        (document.first.IsAnonymous →
          operationName? document.rest = operationName? document'.rest)) ∧
      (policy = .first ∨ d.name = d'.name → d.selectionName = d'.selectionName) ∧
      (d.name = document.first.operationName?.map (·.text) ↔
        (document.first.IsAnonymous → ∀ later ∈ document.rest, later.operationName? = none)) ∧
      (d.selectionName = (ofFirst policy path document).selectionName ↔
        (document.first.IsAnonymous → policy = .matchOperation → ∀ name,
          operationName? document.rest = some name →
          Text.lowerFirst name.text ∈ document.first.fields →
          document.first.fields.head? = some (Text.lowerFirst name.text))) := by
  exact ⟨ofDocument policy path document,ofDocument policy path' document',by rw [ofSource,h],
    by rw [ofSource,h'],kinds_agree hfirst,variables_agree hfirst,names_agree_iff hfirst,
    selectionNames_agree hfirst,name_ofFirst policy path document ▸ name_eq_iff,
      selectionName_eq_iff⟩

def query (name : Option Name) (fields : List Name) : Definition :=
  .operation ⟨.query,name,[],fields.map fun field => .field none field []⟩

def nameA : Name := ⟨['A'],rfl⟩
def nameB : Name := ⟨['B'],rfl⟩
def fieldA : Name := ⟨['a'],rfl⟩
def fieldB : Name := ⟨['b'],rfl⟩

theorem parse_named : parse "query A { b a }" = .ok ⟨query nameA [fieldB,fieldA],[]⟩ := by cbv

theorem parse_named_before : parse "query A { b a } query B { b }" =
    .ok ⟨query nameA [fieldB,fieldA],[query nameB [fieldB]]⟩ := by cbv

theorem parse_anonymous : parse "{ a }" = .ok ⟨query none [fieldA],[]⟩ := by cbv

theorem parse_anonymous_before : parse "{ a } query B { b }" =
    .ok ⟨query none [fieldA],[query nameB [fieldB]]⟩ := by cbv

theorem descriptors_agree_named : ∃ d d',
    ofSource .matchOperation (.ofString "A.graphql") "query A { b a }" = .ok d ∧
    ofSource .matchOperation (.ofString "A.graphql") "query A { b a } query B { b }" = .ok d' ∧
    d.kind = d'.kind ∧ d.hasVariables = d'.hasVariables ∧ d.name = d'.name ∧
    d.selectionName = d'.selectionName ∧ d.name = some "A" := by
  have hnamed : ¬ (query nameA [fieldB,fieldA]).IsAnonymous := by
    rintro ⟨o,ho,hn⟩
    obtain rfl := Definition.operation.inj ho
    cases hn
  obtain ⟨d,d',hd,hd',hkind,hvariables,hname,hselection,hown,-⟩ :=
    descriptors_agree parse_named parse_named_before rfl .matchOperation (.ofString "A.graphql")
      (.ofString "A.graphql")
  have hagree := hname.2 fun ha => absurd ha hnamed
  exact ⟨d,d',hd,hd',hkind,hvariables,hagree,hselection (.inr hagree),hown.2
    fun ha => absurd ha hnamed⟩

/-- An operation without a name is called after a later one. -/
theorem name_of_later_operation : ∃ document document',
    parse "{ a }" = .ok document ∧ parse "{ a } query B { b }" = .ok document' ∧
    document.first = document'.first ∧ ∃ d d',
    ofSource .first (.ofString "A.graphql") "{ a }" = .ok d ∧
    ofSource .first (.ofString "A.graphql") "{ a } query B { b }" = .ok d' ∧
    d.name = none ∧ d'.name = some "B" := by
  have hof : ∀ source document, parse source = .ok document →
      ofSource .first (.ofString "A.graphql") source =
        .ok (ofDocument .first (.ofString "A.graphql") document) :=
    fun source document h => by rw [ofSource,h]
  exact ⟨_,_,parse_anonymous,parse_anonymous_before,rfl,_,_,hof _ _ parse_anonymous,
    hof _ _ parse_anonymous_before,rfl,rfl⟩

end Descriptor

end OperationHooks
