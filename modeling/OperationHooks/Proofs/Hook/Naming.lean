import OperationHooks.Proofs.Hook.Exports
/-!
Hooks that are called like their modules. The constants of a module start with `use`, whatever its
own name starts with, so the two agree if that is the prefix.
-/
set_option autoImplicit false

namespace OperationHooks.Hook

open Template

def constantPhrases : List Phrase := [⟨"export const ".toList,' '⟩]

def constants (content : String) : List String := said constantPhrases content

/-- A line of a module exports a constant of this name. -/
def Declares (content name : String) : Prop :=
  ∃ line ∈ Text.splitLines content.toList, ("export const " ++ name ++ " = ").toList <+: line

def constantBacks : Kind → List String
  | .query => ["Query","LazyQuery","PromiseQuery"]
  | .mutation => ["Mutation"]
  | .subscription | .unclassifiable => []

theorem mem_constants_of_declares {content name : String} (h : Declares content name)
    (hb : ' ' ∉ name.toList) :
    name ∈ constants content := by
  obtain ⟨line,hl,rest,rfl⟩ := h
  have hline : ("export const " ++ name ++ " = ").toList ++ rest =
      "export const ".toList ++ (name.toList ++ ' ' :: ("= ".toList ++ rest)) := by simp
  have hname : ∀ c ∈ name.toList, decide (c ≠ ' ') = true := fun c hc => by
    have hne : c ≠ ' ' := fun he => hb (he ▸ hc)
    simpa using hne
  have hsaid :
      saidBy constantPhrases (("export const " ++ name ++ " = ").toList ++ rest) =
      some name.toList := by
    rw [hline,saidBy,constantPhrases,List.findSome?_singleton,Phrase.said?,
      List.dropPrefix?_append_of_beq _ (beq_self_eq_true _),Option.map_some,
        List.takeWhile_append_of_pos hname]
    simp
  exact List.mem_map.2 ⟨name.toList,List.mem_filterMap.2 ⟨_,hl,hsaid⟩,String.ofList_toList⟩

def openConstant (back : String) : List Symbol :=
  "use".toList.map .char ++ .slot "operation_name" :: back.toList.map .char

def openDeclaration (back : String) : List Symbol :=
  "export const ".toList.map .char ++ openConstant back ++ " = ".toList.map .char

theorem constants_builtIn (v : Variant) :
    isLined constantPhrases ["operation_name"] (symbols v.builtIn) = true ∧
      openSaid constantPhrases (symbols v.builtIn) = (constantBacks v.kind).map openConstant ∧
      ((constantBacks v.kind).all
        fun back => (cut (symbols v.builtIn)).any (openDeclaration back).isPrefixOf) = true := by
  rw [symbols_eq_spelled]
  cases v <;> decide +kernel

theorem constantsOf_eq (name : String) (kind : Kind) (front : String) :
    front ++ name ++ Text.capitalize kind.text ∈
      (constantBacks kind).map (fun back => "use" ++ name ++ back) ↔
      (kind = .query ∨ kind = .mutation) ∧ (front = "use" ∨
        kind = .query ∧ ∃ word ∈ ["Lazy","Promise"], front ++ name = "use" ++ name ++ word) := by
  have hquery : Text.capitalize Kind.query.text = "Query" := by decide
  have hmutation : Text.capitalize Kind.mutation.text = "Mutation" := by decide
  have hback : ∀ {back : String} (word : String), back = word ++ "Query" →
      (front ++ name ++ "Query" = "use" ++ name ++ back ↔
        front ++ name = "use" ++ name ++ word) := by
    rintro _ word rfl
    rw [← String.append_assoc,String.append_left_inj]
  cases kind with
  | query =>
    simp [constantBacks,hquery,hback "Lazy" (by decide : "LazyQuery" = _),
      hback "Promise" (by decide : "PromiseQuery" = _)]
  | mutation => simp [constantBacks,hmutation]
  | subscription | unclassifiable => simp [constantBacks]

namespace Settings

variable {s : Settings} {d : Descriptor}

theorem fill_openDeclaration {name selection : String} (back : String) (rest : List Symbol) :
    fill (slotText name selection) (openDeclaration back ++ rest) =
      ("export const " ++ ("use" ++ name ++ back) ++ " = ").toList ++ fill
        (slotText name selection) rest := by
  unfold openDeclaration openConstant
  simp only [String.toList_append]
  generalize "export const ".toList = opening
  generalize "use".toList = front
  generalize " = ".toList = closing
  simp [fill_map_char,slotText]

def NamesConstant (s : Settings) (d : Descriptor) : Prop :=
  s.namePrefix = "use" ∨ d.kind = .query ∧ ∃ name, d.name = some name ∧
    ∃ word ∈ ["Lazy","Promise"], s.namePrefix ++ name = "use" ++ name ++ word

theorem constants_render (ht : s.templates = none) (h : d.IsNamedOperation) (disk : Disk) :
    ∃ name m, d.name = some name ∧ s.render disk (Variant.select? d.kind d.hasVariables) d = .ok m ∧
      m.path = s.outputPath d ∧
      constants m.content = (constantBacks d.kind).map (fun back => "use" ++ name ++ back) ∧
      ∀ x ∈ constants m.content, Declares m.content x := by
  obtain ⟨v,n,hv,hname,hrender⟩ := render_builtIn ht h
  obtain ⟨hlined,hopen,hdeclared⟩ := constants_builtIn v
  have hstops : ∀ p ∈ constantPhrases, GraphQL.isNamePart p.stop = false := by decide
  obtain ⟨content,hcontent⟩ : ∃ content, content =
      String.ofList (fill (slotText n.text d.selectionName) (symbols v.builtIn)) := ⟨_,rfl⟩
  have hconstants :
      constants content = (constantBacks d.kind).map (fun back => "use" ++ n.text ++ back) := by
    rw [hcontent,constants,said_builtIn hlined hstops h.selection,hopen,
      v.kind_of_select hv,List.map_map]
    refine List.map_congr_left fun back _ => String.toList_injective ?_
    simp [openConstant,fill_map_char,slotText]
  have hdeclares : ∀ x ∈ constants content, Declares content x := by
    intro x hx
    rw [hconstants,← v.kind_of_select hv] at hx
    obtain ⟨back,hback,rfl⟩ := List.mem_map.1 hx
    obtain ⟨line,hline,hfront⟩ := List.any_eq_true.1 (List.all_eq_true.1 hdeclared back hback)
    obtain ⟨rest,rfl⟩ := List.isPrefixOf_iff_prefix.1 hfront
    refine ⟨_,?_,fill (slotText n.text d.selectionName) rest,(fill_openDeclaration back rest).symm⟩
    rw [hcontent,String.toList_ofList,
      splitLines_fill hlined fun slot _ => isLineEnd_of_mem_slotText h.selection slot]
    exact List.mem_map_of_mem hline
  exact ⟨n.text,⟨s.outputPath d,content⟩,hname,hcontent ▸ hrender disk,rfl,hconstants,hdeclares⟩

/-- A module has the constant it is called after as its first one if the prefix is `use`, and as
another one only if that is how the name of a query goes on. -/
theorem names_constant_iff (ht : s.templates = none) (h : d.IsNamedOperation) (disk : Disk) :
    ∃ m, s.render disk (Variant.select? d.kind d.hasVariables) d = .ok m ∧
      (s.nameOf d ∈ constants m.content ↔ s.NamesConstant d) ∧
      ((constants m.content).head? = some (s.nameOf d) ↔ s.namePrefix = "use") ∧
      (∀ x, ' ' ∉ x.toList → (x ∈ constants m.content ↔ Declares m.content x)) ∧
      (s.IsSlashFree → m.baseName = s.nameOf d) := by
  obtain ⟨name,m,hname,hrender,hpath,hconstants,hdeclares⟩ := constants_render ht h disk
  have htext : s.nameOf d = s.namePrefix ++ d.name.getD "None" ++ Text.capitalize d.kind.text := rfl
  have hnameOf : s.nameOf d = s.namePrefix ++ name ++ Text.capitalize d.kind.text := by
    rw [htext,hname,Option.getD_some]
  refine ⟨m,hrender,?_,?_,fun x hx => ⟨hdeclares x,fun hd => mem_constants_of_declares hd hx⟩,
    fun hs => ?_⟩
  · rw [hconstants,hnameOf,constantsOf_eq,NamesConstant]
    simp [h.kind,hname]
  · have hcap : (constantBacks d.kind).head? = some (Text.capitalize d.kind.text) := by
      rcases h.kind with hk | hk <;> rw [hk] <;> decide
    rw [hconstants,hnameOf,List.head?_map,hcap]
    simp [eq_comm]
  · rw [Module.baseName,hpath,hs.stem_outputPath h.isNamed]

theorem names_constant_standard : ∃ m,
    packaged.render ⟨⟨[]⟩,[]⟩ (some .queryPlain)
      (queryCalled ⟨['A'],by decide⟩ (.ofString "A.graphql")) = .ok m ∧
    "useAQuery" ∈ constants m.content ∧ Declares m.content "useAQuery" ∧
    m.baseName = "useAQuery" := by
  obtain ⟨m,hm,hiff,-,hdeclares,hbase⟩ := names_constant_iff (s := packaged) rfl
    (isNamedOperation_queryCalled ⟨['A'],by decide⟩ (.ofString "A.graphql")) ⟨⟨[]⟩,[]⟩
  have hmem : "useAQuery" ∈ constants m.content := hiff.2 (.inl rfl)
  exact ⟨m,hm,hmem,(hdeclares _ (by decide)).1 hmem,hbase ⟨by decide,.ts,rfl⟩⟩

/-- With another prefix the module for `A` is called after none of its constants. -/
theorem other_prefix_undeclared : ∃ m,
    { packaged with namePrefix := "with" }.render ⟨⟨[]⟩,[]⟩ (some .queryPlain)
      (queryCalled ⟨['A'],by decide⟩ (.ofString "A.graphql")) = .ok m ∧
    m.baseName = "withAQuery" ∧ ¬ Declares m.content "withAQuery" := by
  obtain ⟨m,hm,hiff,-,hdeclares,hbase⟩ := names_constant_iff
    (s := { packaged with namePrefix := "with" }) rfl
    (isNamedOperation_queryCalled ⟨['A'],by decide⟩ (.ofString "A.graphql")) ⟨⟨[]⟩,[]⟩
  refine ⟨m,hm,hbase ⟨by decide,.ts,rfl⟩,fun hd => ?_⟩
  rcases hiff.1 ((hdeclares _ (by decide)).2 hd) with hp | ⟨-,name,hname,word,hword,he⟩
  · revert hp
    decide
  · obtain rfl := Option.some.inj hname
    revert he
    rcases List.mem_cons.1 hword with rfl | hword
    · decide
    · obtain rfl := List.mem_singleton.1 hword
      decide

end Settings

end OperationHooks.Hook
