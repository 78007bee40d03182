import OperationHooks.Proofs.Hook.Rendering
import OperationHooks.Proofs.Template.Formatted
/-!
What hook modules import. A module imports a definition by the name of its operation, from a
directory that is given by where the module is. That is the definition it was made for only where
this one is called and placed so.
-/
set_option autoImplicit false

namespace OperationHooks

open Template Disk

namespace Path

theorem fold_childOf (p : Path) {name : String} (h : name ≠ "..") :
    (childOf p name).fold = childOf p.fold name := by
  have habsolute : (childOf p name).isAbsolute = p.isAbsolute := rfl
  simp only [fold,habsolute]
  simp [childOf,foldStep,h]

theorem childOf_eq_iff {p q : Path} {name : String} (h : name ≠ "") :
    childOf p name = q ↔ q.name = name ∧ q.parent = p := by
  constructor
  · rintro rfl
    exact ⟨by simp [childOf,Path.name],parent_childOf p name⟩
  · rintro ⟨hname,rfl⟩
    cases hl : q.parts.getLast? with
    | none => rw [Path.name,hl] at hname; exact absurd hname.symm h
    | some last =>
      obtain rfl : last = name := by rw [← hname,Path.name,hl]; rfl
      obtain ⟨front,hparts⟩ := List.getLast?_eq_some_iff.1 hl
      cases q
      simp only at hparts
      simp [childOf,Path.parent,hparts]

theorem fold_childOf_up (p : Path) {name : String} (h : name ≠ "..") :
    (childOf (childOf p name) "..").fold = p.fold := by
  have habsolute : (childOf (childOf p name) "..").isAbsolute = p.isAbsolute := rfl
  simp only [fold,habsolute]
  simp [childOf,foldStep,h]

theorem fold_up {p q : Path} {name : String} (h : name ≠ "..") (hp : p.fold = childOf q name) :
    (childOf p "..").fold = q := by
  have habsolute : (childOf p "..").isAbsolute = p.isAbsolute := rfl
  obtain ⟨hanchor,hparts⟩ : p.anchor = q.anchor ∧
      (p.parts.foldl (foldStep p.isAbsolute) []).reverse = q.parts ++ [name] := Path.mk.inj hp
  have hfolded : p.parts.foldl (foldStep p.isAbsolute) [] = name :: q.parts.reverse := by
    rw [← List.reverse_reverse (p.parts.foldl _ _),hparts]; simp
  simp only [fold,habsolute]
  simp [childOf,hfolded,foldStep,h,hanchor]

theorem parent_fold {p : Path} (hne : p.name ≠ "") (hup : p.name ≠ "..") :
    p.fold.parent = p.parent.fold := by
  have hp : childOf p.parent p.name = p := (childOf_eq_iff hne).2 ⟨rfl,rfl⟩
  conv_lhs => rw [← hp]
  rw [fold_childOf _ hup,parent_childOf]

end Path

namespace Hook

def definitionDirectory : String := "../operations"

def definitionFile (name : String) : String := name ++ ".graphql"

theorem definitionFile_ne (name : String) : definitionFile name ≠ "" := fun h => by
  have hlength := congrArg (fun s => s.toList.length) h
  simp [definitionFile] at hlength

def importPhrases : List Phrase :=
  [⟨"import QUERY from '".toList,'\''⟩,⟨"import MUTATION from '".toList,'\''⟩]

def imports (content : String) : List String := said importPhrases content

theorem join_definition {name : String}
    (h : ∀ c ∈ name.toList, GraphQL.isNamePart c = true) (hne : name ≠ "")
    (directory : Path) :
    (directory / (definitionDirectory ++ "/" ++ definitionFile name)).fold =
      childOf (directory / definitionDirectory).fold (definitionFile name) := by
  have hslash : '/' ∉ name.toList := fun hc => absurd (h _ hc) (by decide)
  have hfile : Path.IsPart (name ++ "." ++ "graphql") ∧ name ++ "." ++ "graphql" ≠ ".." :=
    Hook.Settings.isPart_of_extension hne (by decide) hslash (by decide)
  have hdot : definitionFile name = name ++ "." ++ "graphql" := by
    rw [String.append_assoc]; rfl
  have hup : Path.ofString definitionDirectory = ⟨.here,["..","operations"]⟩ := by decide
  have hplain : Path.Plain ⟨.here,["..","operations",definitionFile name]⟩ := by
    intro part hp
    simp only [List.mem_cons,List.not_mem_nil,or_false] at hp
    rcases hp with rfl | rfl | rfl
    · exact ⟨by decide,by decide,by decide⟩
    · exact ⟨by decide,by decide,by decide⟩
    · rw [hdot]; exact hfile.1
  have hwhole : Path.ofString (definitionDirectory ++ "/" ++ definitionFile name) =
      ⟨.here,["..","operations",definitionFile name]⟩ := by
    have htext : definitionDirectory ++ "/" ++ definitionFile name =
        Path.text ⟨.here,["..","operations",definitionFile name]⟩ := by
      have hstart : definitionDirectory = ".." ++ "/" ++ "operations" := by decide
      rw [hstart]
      show _ = "" ++ (".." ++ "/" ++ "operations" ++ "/" ++ definitionFile name)
      rw [String.empty_append]
    rw [htext,Path.ofString_text hplain]
  have hjoin : directory / (definitionDirectory ++ "/" ++ definitionFile name) =
      childOf (directory / definitionDirectory) (definitionFile name) := by
    show directory.join (.ofString _) = childOf (directory.join (.ofString _)) _
    rw [hwhole,hup]
    simp [Path.join,Path.isAbsolute,childOf]
  rw [hjoin,Path.fold_childOf _ (hdot ▸ hfile.2)]

theorem imports_builtIn (v : Variant) :
    isLined importPhrases ["operation_name"] (symbols v.builtIn) = true ∧
      openSaid importPhrases (symbols v.builtIn) = [(definitionDirectory ++ "/").toList.map .char ++
        .slot "operation_name" :: ".graphql".toList.map .char] ∧
      (cut (symbols v.builtIn)).all (fun line => importPhrases.all (isSteady · line)) = true := by
  rw [symbols_eq_spelled]
  cases v <;> decide +kernel

/-- Where a module in a directory looks for its definition. -/
def imported (directory : Path) (content : String) : List Path :=
  (imports content).map fun relative : String => (directory / relative).fold

structure ImportsByName (d : Descriptor) (name content : String) : Prop where
  imported : ∀ directory, imported directory content =
    [childOf (directory / definitionDirectory).fold (definitionFile name)]
  formatted : ∀ style text, Format.basic? style content = some text → imports text = imports content

namespace Settings

variable {s : Settings} {d : Descriptor}

theorem solid_importPhrases : ∀ p ∈ importPhrases, p.IsSolid := by
  intro p hp
  simp only [importPhrases,List.mem_cons,List.not_mem_nil,or_false] at hp
  rcases hp with rfl | rfl
  · exact ⟨⟨'i',"mport QUERY from '".toList,by decide,by decide,by decide⟩,by decide⟩
  · exact ⟨⟨'i',"mport MUTATION from '".toList,by decide,by decide,by decide⟩,by decide⟩

theorem importsByName_render (ht : s.templates = none) (h : d.IsNamedOperation) :
    ∃ name content, d.name = some name ∧ ImportsByName d name content ∧
      ∀ disk, s.render disk (Variant.select? d.kind d.hasVariables) d =
        .ok ⟨s.outputPath d,content⟩ := by
  obtain ⟨v,n,-,hname,hrender⟩ := render_builtIn ht h
  obtain ⟨hlined,hopen,hsteady⟩ := imports_builtIn v
  have hstops : ∀ p ∈ importPhrases, GraphQL.isNamePart p.stop = false := by decide
  have hne : n.text ≠ "" := fun he => n.chars_ne_nil (by simpa [GraphQL.Name.text] using he)
  have hvalue : ∀ slot ∈ slots (symbols v.builtIn), ∀ c ∈ slotText n.text d.selectionName slot,
      Text.isLineEnd c = false := fun slot _ => isLineEnd_of_mem_slotText h.selection slot
  refine ⟨n.text,_,hname,⟨fun directory => ?_,fun style text hb => ?_⟩,hrender⟩
  · have himport :
        imports (String.ofList (fill (slotText n.text d.selectionName) (symbols v.builtIn))) =
        [definitionDirectory ++ "/" ++ definitionFile n.text] := by
      rw [imports,said_builtIn hlined hstops h.selection,hopen,List.map_singleton]
      congr 1
      apply String.toList_injective
      simp [fill_map_char,slotText,definitionFile]
    rw [Hook.imported,himport,List.map_singleton,
      join_definition (fun c hc => n.isNamePart_of_mem hc) hne]
  · refine said_basic hb solid_importPhrases ?_
    rw [String.toList_ofList,splitLines_fill hlined hvalue]
    refine List.forall_mem_map.2 fun line hl p hp => steady_fill (solid_importPhrases p hp) ?_
    exact List.all_eq_true.1 (List.all_eq_true.1 hsteady line hl) p hp

/-- By the standard destination a module imports the definition it was made for if this is in a
directory called `operations` and has the name of its operation. -/
theorem imports_standard_iff (hdestination : s.destination = standardDestination)
    (hroot : s.outputRoot = none)
    (hs : s.IsSlashFree) (hn : d.IsNamed) (hne : d.sourcePath.name ≠ "")
    (hup : d.sourcePath.name ≠ "..")
    {file : String} (hfile : file ≠ "") :
    childOf ((s.outputPath d).parent / definitionDirectory).fold file = d.sourcePath.fold ↔
      d.sourcePath.fold.name = file ∧ d.sourcePath.parent.fold.name = "operations" := by
  have hhooks : Path.ofString standardDestination = ⟨.here,["..","hooks"]⟩ := by decide
  have hoperations : Path.ofString definitionDirectory = ⟨.here,["..","operations"]⟩ := by decide
  have hjoin :
      ∀ (p : Path) (name : String), p.join ⟨.here,["..",name]⟩ = childOf (childOf p "..") name := by
    intro p name
    simp [Path.join,Path.isAbsolute,childOf]
  have houtput :
      (s.outputPath d).parent = childOf (childOf d.sourcePath.parent "..").fold "hooks" := by
    rw [hs.outputPath_eq hn,parent_childOf,outputDirectory,hroot,hdestination]
    show (d.sourcePath.parent.join (.ofString standardDestination)).fold = _
    rw [hhooks,hjoin,Path.fold_childOf _ (by decide)]
  have hdirectory : ((s.outputPath d).parent / definitionDirectory).fold =
      childOf (childOf d.sourcePath.parent "..").fold "operations" := by
    show ((s.outputPath d).parent.join (.ofString definitionDirectory)).fold = _
    rw [hoperations,hjoin,Path.fold_childOf _ (by decide),houtput,
      Path.fold_childOf_up _ (by decide),Path.fold_fold]
  rw [hdirectory,Path.childOf_eq_iff hfile,Path.parent_fold hne hup]
  refine and_congr_right fun _ => ⟨fun h => ?_,fun h => ?_⟩
  · rw [h]; simp [childOf,Path.name]
  · have hsplit := (Path.childOf_eq_iff (by decide)).2 ⟨h,rfl⟩
    rw [Path.fold_up (by decide) hsplit.symm,hsplit]

end Settings

end Hook

end OperationHooks
