import OperationHooks.Proofs.Hook.Rendering
/-!
Where modules go and what they are called. A module is in the output directory of its definition
under the name of its hook, and in one directory this name tells the name and the kind of the
operation.
-/
set_option autoImplicit false

namespace OperationHooks.Hook.Settings
open Disk Template

variable {s : Settings} {d d' : Descriptor} {m m' : Module} {name name' : String}

structure Places (s : Settings) (d : Descriptor) (m : Module) : Prop where
  parent : m.path.parent = s.outputDirectory d.sourcePath
  baseName : m.baseName = s.nameOf d
  notIndex : ∀ e : Extension, m.path.name ≠ "index" ++ "." ++ e.text

theorem properName?_eq_some_iff : d.properName? = some name ↔ d.name = some name ∧ name ≠ "" := by
  simp [Descriptor.properName?,Option.filter_eq_some_iff]

theorem exists_render (ht : s.templates = none) (hd : d.properName? = some name)
    (disk : Disk) (v : Variant) :
    ∃ m, s.render disk (some v) d = .ok m := by
  have hdraft : s.draft disk (some v) d =
      .ok ⟨s.outputPath d,
        .ofString (String.ofList (fill (slotText name d.selectionName) (symbols v.builtIn)))⟩ := by
    simp only [draft,hd,content_fromPackage (fromPackage_of_none ht disk v),
      Text.Wide.ofString_ofList]
  exact ⟨⟨_,_⟩,render_eq_ok.2 hdraft⟩

theorem places_outputPath (hs : s.IsSlashFree) (hn : '/' ∉ (d.name.getD "None").toList)
    (hm : m.path = s.outputPath d) : s.Places d m := by
  have hpath : m.path = childOf (s.outputDirectory d.sourcePath) (s.fileName d) :=
    hm.trans (div_part _ (hs.isPart_fileName hn).1)
  have hbase : m.baseName = s.nameOf d := hs.stem_of_fileName (by rw [hpath,name_childOf])
  refine ⟨by rw [hpath,parent_childOf],hbase,fun e he => ?_⟩
  have hindex : m.baseName = "index" := stem_of_name he (by decide) e.text_ne e.dot_not_mem_text
  exact nameOf_ne_index s d (hbase.symm.trans hindex)

theorem nameOf_inj (hd : d.name = some name) (hd' : d'.name = some name') :
    s.nameOf d = s.nameOf d' ↔ name = name' ∧ d.kind = d'.kind := by
  have htext : ∀ {d name}, d.name = some name →
      (s.nameOf d).toList =
        s.namePrefix.toList ++ (name.toList ++ (Text.capitalize d.kind.text).toList) := by
    intro d name hd
    have hname :
        s.nameOf d = s.namePrefix ++ d.name.getD "None" ++ Text.capitalize d.kind.text := rfl
    simp [hname,hd]
  rw [← String.toList_inj,htext hd,htext hd',List.append_cancel_left_eq]
  refine ⟨fun h => ?_,fun ⟨hn,hk⟩ => by rw [hn,hk]⟩
  obtain ⟨hn,hk⟩ := append_kind_inj h
  exact ⟨String.toList_injective hn,hk⟩

theorem path_eq_iff (hm : s.Places d m) (hm' : s.Places d' m') (hpath : m.path = s.outputPath d)
    (hpath' : m'.path = s.outputPath d') (hd : d.name = some name) (hd' : d'.name = some name') :
    m.path = m'.path ↔ s.outputDirectory d.sourcePath = s.outputDirectory d'.sourcePath ∧
      name = name' ∧ d.kind = d'.kind := by
  rw [← nameOf_inj (s := s) hd hd']
  constructor
  · intro he
    rw [← hm.parent,← hm'.parent,← hm.baseName,← hm'.baseName,Module.baseName,Module.baseName,he]
    exact ⟨rfl,rfl⟩
  · rintro ⟨hdirectory,hname⟩
    rw [hpath,hpath',outputPath,outputPath,hdirectory,hname]

/-- Without slashes in the prefix and in the names the module for a definition is where it belongs,
whatever template it was rendered from; and no two of them meet unless they are for operations of
one name and kind. -/
theorem modules_placed (hs : s.IsSlashFree) (hd : d.properName? = some name)
    (hd' : d'.properName? = some name')
    (hn : '/' ∉ name.toList) (hn' : '/' ∉ name'.toList) :
    (s.templates = none → ∀ disk v, ∃ m, s.render disk (some v) d = .ok m) ∧
      (∀ disk variant m, s.render disk variant d = .ok m → s.Places d m) ∧
      ∀ disk disk' variant variant' m m', s.render disk variant d = .ok m →
        s.render disk' variant' d' = .ok m' →
        (m.path = m'.path ↔ s.outputDirectory d.sourcePath = s.outputDirectory d'.sourcePath ∧
          name = name' ∧ d.kind = d'.kind) := by
  have hname := (properName?_eq_some_iff.1 hd).1
  have hname' := (properName?_eq_some_iff.1 hd').1
  have hplaces : ∀ {d name m}, d.name = some name → '/' ∉ name.toList →
      m.path = s.outputPath d → s.Places d m :=
    fun hname hn hpath => places_outputPath hs (by rwa [hname,Option.getD_some]) hpath
  refine ⟨fun ht disk v => exists_render ht hd disk v,
    fun disk variant m hm => hplaces hname hn (path_of_render hm).1,
    fun disk disk' variant variant' m m' hm hm' => ?_⟩
  have hpath := (path_of_render hm).1
  have hpath' := (path_of_render hm').1
  exact path_eq_iff (hplaces hname hn hpath) (hplaces hname' hn' hpath') hpath hpath' hname hname'

def dotted : Settings := { packaged with namePrefix := ".use.", extension := Extension.js.text }

def calledDotted (kind : Kind) : Descriptor where
  sourcePath := .ofString "A.graphql"
  kind
  name := some "A.ts"
  hasVariables := false
  selectionName := "a"

theorem modules_placed_dotted : ∃ m m',
    dotted.render ⟨⟨[]⟩,[]⟩ (some .queryPlain) (calledDotted .query) = .ok m ∧
    dotted.render ⟨⟨[]⟩,[]⟩ (some .mutationPlain) (calledDotted .mutation) = .ok m' ∧
    m.baseName = ".use.A.tsQuery" ∧ m.path.parent = m'.path.parent ∧ m.path ≠ m'.path := by
  have hs : dotted.IsSlashFree := ⟨by decide,.js,rfl⟩
  have hname : ∀ kind, (calledDotted kind).properName? = some "A.ts" := fun kind => rfl
  obtain ⟨hquery,hplaces,hapart⟩ :=
    modules_placed hs (hname .query) (hname .mutation) (by decide) (by decide)
  obtain ⟨hmutation,hplaces',-⟩ :=
    modules_placed hs (hname .mutation) (hname .query) (by decide) (by decide)
  obtain ⟨m,hm⟩ := hquery rfl ⟨⟨[]⟩,[]⟩ .queryPlain
  obtain ⟨m',hm'⟩ := hmutation rfl ⟨⟨[]⟩,[]⟩ .mutationPlain
  have hplaced := hplaces _ _ m hm
  have hplaced' := hplaces' _ _ m' hm'
  refine ⟨m,m',hm,hm',hplaced.baseName.trans (by decide),hplaced.parent.trans hplaced'.parent.symm,
    fun he => ?_⟩
  cases ((hapart _ _ _ _ m m' hm hm').1 he).2.2

end OperationHooks.Hook.Settings
