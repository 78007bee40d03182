import OperationHooks.Proofs.Hook.Rendering
/-!
What hook modules export. Each export is the name of the operation with fixed words around it, so
two modules export something by one name only if two queries differ by one of these words.
-/
set_option autoImplicit false

namespace OperationHooks.Hook

open Template

def exportPhrases : List Phrase := [⟨"export const ".toList,' '⟩,⟨"export type ".toList,' '⟩]

def exports (content : String) : List String := said exportPhrases content

/-- What stands in front of and behind the name of an operation in what its module exports. -/
def wrappers : Kind → List (String × String)
  | .query => [("use","Query"),("use","LazyQuery"),("use","PromiseQuery")]
  | .mutation => [("use","Mutation"),("","MutationFunction")]
  | .subscription | .unclassifiable => []

def exportsOf (kind : Kind) (name : String) : List String :=
  (wrappers kind).map fun (front,back) => front ++ name ++ back

theorem exports_builtIn (v : Variant) :
    isLined exportPhrases ["operation_name"] (symbols v.builtIn) = true ∧
      openSaid exportPhrases (symbols v.builtIn) = (wrappers v.kind).map fun (front,back) =>
        front.toList.map .char ++ .slot "operation_name" :: back.toList.map .char := by
  rw [symbols_eq_spelled]
  cases v <;> decide +kernel

namespace Settings

variable {s : Settings} {d d' : Descriptor} {name name' : String}

theorem exports_render (ht : s.templates = none) (h : d.IsNamedOperation) (disk : Disk) :
    ∃ name m, d.name = some name ∧ s.render disk (Variant.select? d.kind d.hasVariables) d = .ok m ∧
      exports m.content = exportsOf d.kind name := by
  obtain ⟨v,n,hv,hname,hrender⟩ := render_builtIn ht h
  obtain ⟨hlined,hopen⟩ := exports_builtIn v
  refine ⟨n.text,_,hname,hrender disk,?_⟩
  have hstops : ∀ p ∈ exportPhrases, GraphQL.isNamePart p.stop = false := by decide
  rw [exports,said_builtIn hlined hstops h.selection,hopen,v.kind_of_select hv,
    exportsOf,List.map_map]
  refine List.map_congr_left fun (front,back) _ => ?_
  apply String.toList_injective
  simp [fill_map_char,slotText]

theorem append_eq_append_word {a b back : String} (word : String) :
    a ++ (word ++ back) = b ++ back ↔ b = a ++ word := by
  rw [← String.append_assoc,String.append_left_inj]
  exact eq_comm

theorem append_ne_append {a b back back' : String}
    (h : back.toList.getLast? ≠ back'.toList.getLast?)
    (hne : back ≠ "") (hne' : back' ≠ "") : a ++ back ≠ b ++ back' := by
  intro he
  have hlast := congrArg (List.getLast? ∘ String.toList) he
  have hback : back.toList ≠ [] := by simpa using hne
  have hback' : back'.toList ≠ [] := by simpa using hne'
  simp only [Function.comp_apply,String.toList_append,List.getLast?_append_of_ne_nil _ hback,
    List.getLast?_append_of_ne_nil _ hback'] at hlast
  exact h hlast

theorem disjoint_query (hne : name ≠ name') :
    List.Disjoint (exportsOf .query name) (exportsOf .query name') ↔
      ¬ ∃ word ∈ ["Lazy","Promise"], name' = name ++ word ∨ name = name' ++ word := by
  have hlazy : "LazyQuery" = "Lazy" ++ "Query" := by decide
  have hpromise : "PromiseQuery" = "Promise" ++ "Query" := by decide
  have hapart : ∀ a b : String, a ++ ("Lazy" ++ "Query") ≠ b ++ ("Promise" ++ "Query") := by
    intro a b he
    rw [← String.append_assoc,← String.append_assoc,String.append_left_inj] at he
    exact append_ne_append (by decide) (by decide) (by decide) he
  have hback : ∀ a b word : String, a ++ "Query" = b ++ (word ++ "Query") ↔
      a = b ++ word := fun a b word =>
    eq_comm.trans (append_eq_append_word word)
  simp only [exportsOf,wrappers,List.map_cons,List.map_nil,hlazy,hpromise,List.disjoint_cons_left,
    List.disjoint_nil_left,List.mem_cons,List.not_mem_nil,String.append_assoc,
      String.append_right_inj,
    append_eq_append_word,hback,String.append_left_inj,hne,hapart,(hapart _ _).symm]
  simp only [or_and_right,exists_or,exists_eq_left,false_or,or_false,not_or,and_true]
  exact ⟨fun ⟨⟨h,h'⟩,hl,hp⟩ => ⟨⟨hl,h⟩,hp,h'⟩,fun ⟨⟨hl,h⟩,hp,h'⟩ => ⟨⟨h,h'⟩,hl,hp⟩⟩

theorem disjoint_mutation (hne : name ≠ name') :
    List.Disjoint (exportsOf .mutation name) (exportsOf .mutation name') := by
  have hconst : "Mutation" = "Muta" ++ "tion" := by decide
  have htype : "MutationFunction" = "MutationFunc" ++ "tion" := by decide
  have hapart : ∀ a b : String, a ++ "Mutation" ≠ b ++ "MutationFunction" := by
    intro a b he
    rw [hconst,htype,← String.append_assoc,← String.append_assoc,String.append_left_inj] at he
    exact append_ne_append (by decide) (by decide) (by decide) he
  simp only [exportsOf,wrappers,List.map_cons,List.map_nil,List.disjoint_cons_left,
    List.disjoint_nil_left,
    List.mem_cons,List.not_mem_nil,String.append_left_inj,String.append_right_inj,hne,hapart,
      (hapart _ _).symm,
    or_false,not_false_eq_true,and_self]

theorem getLast?_of_mem_exportsOf {kind : Kind} {x : String} (hx : x ∈ exportsOf kind name) :
    x.toList.getLast? = some (if kind = .query then 'y' else 'n') := by
  have hback :
      ∀ w ∈ wrappers kind, w.2.toList.getLast? = some (if kind = .query then 'y' else 'n') := by
    cases kind <;> decide
  obtain ⟨w,hw,rfl⟩ := List.mem_map.1 hx
  have hlast := hback w hw
  rw [String.toList_append,List.getLast?_append,hlast]
  rfl

theorem disjoint_of_kind {kind kind' : Kind} (h : ¬ (kind = .query ↔ kind' = .query)) :
    List.Disjoint (exportsOf kind name) (exportsOf kind' name') := by
  intro x hx hx'
  have hlast := (getLast?_of_mem_exportsOf hx).symm.trans (getLast?_of_mem_exportsOf hx')
  by_cases hk : kind = .query <;> by_cases hk' : kind' = .query <;> simp_all

def Rivals (d d' : Descriptor) : Prop :=
  d.kind = .query ∧ d'.kind = .query ∧ ∃ name name', d.name = some name ∧ d'.name = some name' ∧
    ∃ word ∈ ["Lazy","Promise"], name' = name ++ word ∨ name = name' ++ word

/-- The modules of two definitions export nothing by one name, unless the two are queries and one is
called like the other with `Lazy` or `Promise` behind. -/
theorem exports_disjoint_iff (ht : s.templates = none) (h : d.IsNamedOperation)
    (h' : d'.IsNamedOperation)
    (hne : d.name ≠ d'.name ∨ d.kind ≠ d'.kind) (disk disk' : Disk) :
    ∃ m m', s.render disk (Variant.select? d.kind d.hasVariables) d = .ok m ∧
      s.render disk' (Variant.select? d'.kind d'.hasVariables) d' = .ok m' ∧
      (List.Disjoint (exports m.content) (exports m'.content) ↔ ¬ Rivals d d') := by
  obtain ⟨name,m,hname,hrender,hexports⟩ := exports_render ht h disk
  obtain ⟨name',m',hname',hrender',hexports'⟩ := exports_render ht h' disk'
  refine ⟨m,m',hrender,hrender',?_⟩
  rw [hexports,hexports']
  have hrivals : Rivals d d' ↔ d.kind = .query ∧ d'.kind = .query ∧
      ∃ word ∈ ["Lazy","Promise"], name' = name ++ word ∨ name = name' ++ word := by
    simp [Rivals,hname,hname']
  rw [hrivals]
  by_cases hk : d.kind = d'.kind
  · have hnames : name ≠ name' := fun he => hne.elim (· (by rw [hname,hname',he])) (· hk)
    rw [← hk]
    rcases h.kind with hq | hm
    · simp only [hq,true_and]
      exact disjoint_query hnames
    · simp only [hm,reduceCtorEq,false_and,not_false_eq_true,iff_true]
      exact disjoint_mutation hnames
  · have hkinds : ¬ (d.kind = .query ↔ d'.kind = .query) := by
      rcases h.kind with hq | hm <;> rcases h'.kind with hq' | hm' <;> simp_all
    have hapart : ¬ (d.kind = .query ∧ d'.kind = .query ∧
        ∃ word ∈ ["Lazy","Promise"], name' = name ++ word ∨ name = name' ++ word) :=
      fun ⟨hq,hq',_⟩ => hkinds (iff_of_true hq hq')
    exact iff_of_true (disjoint_of_kind hkinds) hapart

theorem exports_disjoint_apart : ∃ m m',
    packaged.render ⟨⟨[]⟩,[]⟩ (some .queryPlain)
      (queryCalled ⟨['A'],by decide⟩ (.ofString "A.graphql")) = .ok m ∧
    packaged.render ⟨⟨[]⟩,[]⟩ (some .queryPlain)
      (queryCalled ⟨['B'],by decide⟩ (.ofString "B.graphql")) = .ok m' ∧
    List.Disjoint (exports m.content) (exports m'.content) := by
  obtain ⟨m,m',hm,hm',hiff⟩ := exports_disjoint_iff (s := packaged) rfl
    (isNamedOperation_queryCalled ⟨['A'],by decide⟩ (.ofString "A.graphql"))
    (isNamedOperation_queryCalled ⟨['B'],by decide⟩ (.ofString "B.graphql")) (.inl (by decide))
      ⟨⟨[]⟩,[]⟩ ⟨⟨[]⟩,[]⟩
  refine ⟨m,m',hm,hm',hiff.2 ?_⟩
  rintro ⟨-,-,name,name',hname,hname',word,hword,he⟩
  obtain rfl := Option.some.inj hname
  obtain rfl := Option.some.inj hname'
  revert he
  rcases List.mem_cons.1 hword with rfl | hword
  · decide
  · obtain rfl := List.mem_singleton.1 hword
    decide

/-- `A` and `ALazy` both export `useALazyQuery`. -/
theorem exports_meet : ∃ m m',
    packaged.render ⟨⟨[]⟩,[]⟩ (some .queryPlain)
      (queryCalled ⟨['A'],by decide⟩ (.ofString "A.graphql")) = .ok m ∧
    packaged.render ⟨⟨[]⟩,[]⟩ (some .queryPlain)
      (queryCalled ⟨['A','L','a','z','y'],by decide⟩ (.ofString "ALazy.graphql")) = .ok m' ∧
    "useALazyQuery" ∈ exports m.content ∧ "useALazyQuery" ∈ exports m'.content := by
  obtain ⟨name,m,hname,hm,he⟩ := exports_render (s := packaged) rfl
    (isNamedOperation_queryCalled ⟨['A'],by decide⟩ (.ofString "A.graphql")) ⟨⟨[]⟩,[]⟩
  obtain ⟨name',m',hname',hm',he'⟩ := exports_render (s := packaged) rfl
    (isNamedOperation_queryCalled ⟨['A','L','a','z','y'],by decide⟩ (.ofString "ALazy.graphql"))
      ⟨⟨[]⟩,[]⟩
  obtain rfl := Option.some.inj hname
  obtain rfl := Option.some.inj hname'
  refine ⟨m,m',hm,hm',?_,?_⟩
  · rw [he]; decide
  · rw [he']; decide

end Settings

end OperationHooks.Hook
